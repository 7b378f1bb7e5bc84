import Kdive.Bundles.TwoScans

/-!
The scans of a boot member that read it part by part and carry an overlap from one part to the next:
the banner of a ppc64le kernel and the places where a packed kernel may start. Neither depends on
where the parts are cut.
-/
namespace Kdive.Bundles
open PosixPath (Str str)

section Banner

variable {boot token tail rest : Bytes} {i : Nat}

def scanInParts (chunkBytes scanned : Nat) (tail rest : Bytes) : Except Exc Str :=
  if bootMemberMaxBytes ≤ scanned then noBanner
  else
    let chunk := rest.take chunkBytes
    if _ended : chunk = [] then
      (scanLinuxRelease (tail ++ [0])).bind fun
        | some release => .ok release
        | none => noBanner
    else
      let data := tail ++ chunk
      (scanLinuxRelease data).bind fun
        | some release => .ok release
        | none => scanInParts chunkBytes (scanned + chunk.length)
            (data.drop (data.length - bannerScanOverlapBytes)) (rest.drop chunkBytes)
termination_by rest.length
decreasing_by
  have filled := List.length_pos_iff.mpr _ended
  rw [List.length_take] at filled
  rw [List.length_drop]
  omega

def terminates (b : UInt8) : Bool := b = 0x20 || b = 0x09 || b = 0x0D || b = 0x0A || b = 0

def CompleteBanner (boot : Bytes) (i : Nat) (token : Bytes) : Prop :=
  ∃ front after, boot = front ++ (bannerMarker ++ (token ++ after)) ∧ front.length = i ∧
    releaseMatches (token.map UInt8.toNat) = true ∧ after.head?.all terminates = true

def FirstBanner (boot : Bytes) (i : Nat) (token : Bytes) : Prop :=
  CompleteBanner boot i token ∧ ∀ j < i, ∀ other, ¬ CompleteBanner boot j other

theorem releaseTail_of_head {c : Nat} (head : releaseHead c = true) : releaseTail c = true := by
  simp [releaseTail, head]

theorem releaseMatches_iff : releaseMatches (token.map UInt8.toNat) = true ↔
    (∀ b ∈ token, releaseTail b.toNat = true) ∧
      token.head?.any (fun b => releaseHead b.toNat) = true ∧ token.length ≤ 64 := by
  cases token with
  | nil => simp [releaseMatches]
  | cons b rest =>
    simp only [List.map_cons, releaseMatches, Bool.and_eq_true, List.all_map, List.all_eq_true,
      Function.comp_apply, List.length_map, decide_eq_true_eq, List.forall_mem_cons, List.head?_cons,
      Option.any_some, List.length_cons]
    constructor
    · rintro ⟨⟨head, tail⟩, short⟩
      exact ⟨⟨releaseTail_of_head head, tail⟩, head, by omega⟩
    · rintro ⟨⟨_, tail⟩, head, short⟩
      exact ⟨⟨head, tail⟩, by omega⟩

theorem validatedRelease_canonical (canonical : releaseMatches (token.map UInt8.toNat) = true) :
    validatedRelease token = .ok (token.map UInt8.toNat) := by
  have ascii : Utf8.Ascii token := by
    intro b member
    have isTail := (releaseMatches_iff.mp canonical).1 b member
    rw [UInt8.lt_iff_toNat_lt]
    simp only [releaseTail, releaseHead, Bool.or_eq_true, Bool.and_eq_true, decide_eq_true_eq] at isTail
    change b.toNat < 128
    omega
  have text : (Utf8.decode token).map Char.toNat = token.map UInt8.toNat := by
    rw [Utf8.decode_ascii ascii, List.map_map]
    exact List.map_congr_left fun b member => Utf8.toNat_toChar (ascii b member)
  have same : Utf8.encode (Utf8.decode token) = token := by
    rw [Utf8.encode_ascii, Utf8.decode_ascii ascii, Utf8.map_toByte_toChar ascii]
    intro c member
    rw [Utf8.decode_ascii ascii] at member
    obtain ⟨b, held, rfl⟩ := List.mem_map.mp member
    rw [Utf8.toNat_toChar (ascii b held)]
    exact ascii b held
  rw [validatedRelease, strictDecode, if_pos same, text]
  exact if_pos canonical

theorem completeBanner_iff : CompleteBanner boot i token ↔ bannerAt (boot ++ [0]) i = some token := by
  rw [bannerAt, bannerToken_eq_some]
  constructor
  · rintro ⟨front, after, rfl, rfl, canonical, ends⟩
    obtain ⟨tail, head, short⟩ := releaseMatches_iff.mp canonical
    rw [List.append_assoc, List.drop_left]
    cases after with
    | nil => exact ⟨0, [], by simp, tail, head, short, by decide⟩
    | cons last after => exact ⟨last, after ++ [0], by simp, tail, head, short, ends⟩
  · rintro ⟨last, rest, whole, tail, head, short, ends⟩
    have canonical := releaseMatches_iff.mpr ⟨tail, head, short⟩
    have inside : i ≤ (boot ++ [0]).length := by
      by_contra past
      rw [List.drop_eq_nil_of_le (by omega)] at whole
      have empty := congrArg List.length whole
      simp only [List.length_nil, List.length_append, List.length_cons] at empty
      omega
    have size : ((boot ++ [0]).take i).length = i := List.length_take_of_le inside
    have split := List.take_append_drop i (boot ++ [0])
    rw [whole] at split
    -- the appended byte is the terminator itself, or it stands behind it
    rcases List.eq_nil_or_concat rest with rfl | ⟨rest, b, rfl⟩
    · have ended : boot ++ [0] = (boot ++ [0]).take i ++ (bannerMarker ++ (token ++ [])) ++ [last] := by
        simpa only [List.append_assoc, List.append_nil] using split.symm
      exact ⟨_, [], (List.append_inj' ended rfl).1, size, canonical, rfl⟩
    · have ended : boot ++ [0] =
          (boot ++ [0]).take i ++ (bannerMarker ++ (token ++ last :: rest)) ++ [b] := by
        simpa only [List.append_assoc, List.cons_append, List.concat_eq_append] using split.symm
      exact ⟨_, last :: rest, (List.append_inj' ended rfl).1, size, canonical, ends⟩

theorem bannerSearch_overlap {seen : Bytes} (missing : bannerSearch seen = none) (unseen : Bytes) :
    bannerSearch (seen ++ unseen) =
      bannerSearch (seen.drop (seen.length - bannerScanOverlapBytes) ++ unseen) := by
  have split : seen ++ unseen = seen.take (seen.length - bannerScanOverlapBytes) ++
      (seen.drop (seen.length - bannerScanOverlapBytes) ++ unseen) := by
    rw [← List.append_assoc, List.take_append_drop]
  rw [split]
  refine bannerSearch_append fun i inside => ?_
  rw [List.length_take] at inside
  rw [← split, bannerAt, List.drop_append_of_le_length (by omega)]
  by_contra found
  obtain ⟨other, found⟩ := Option.ne_none_iff_exists'.mp found
  have cut := (bannerToken_cut (bannerSearch_eq_none missing i) found).1
  rw [List.length_drop] at cut
  omega

def searchedRelease (data : Bytes) : Except Exc Str :=
  match bannerSearch data with
  | some token => .ok (token.map UInt8.toNat)
  | none => noBanner

theorem scanLinuxRelease_eq (data : Bytes) :
    scanLinuxRelease data = .ok ((bannerSearch data).map (·.map UInt8.toNat)) := by
  rw [scanLinuxRelease]
  cases found : bannerSearch data with
  | none => rfl
  | some token =>
    obtain ⟨i, here, -, -⟩ := bannerSearch_eq_some found
    obtain ⟨_, _, _, tail, head, short, _⟩ := bannerToken_eq_some.mp here
    simp only [validatedRelease_canonical (releaseMatches_iff.mpr ⟨tail, head, short⟩)]
    rfl

/-- However long the parts are, the scan is one search over what the member has left. -/
theorem scanInParts_eq {chunkBytes : Nat} (positive : 1 ≤ chunkBytes) {scanned : Nat}
    (small : scanned + rest.length < bootMemberMaxBytes) (tail : Bytes) :
    scanInParts chunkBytes scanned tail rest = searchedRelease (tail ++ rest ++ [0]) := by
  induction left : rest.length using Nat.strongRecOn generalizing scanned tail rest with
  | ind size ih =>
    rw [scanInParts, if_neg (by omega)]
    dsimp only
    split
    · rename_i ended
      have empty : rest = [] := by
        rcases List.take_eq_nil_iff.mp ended with zero | empty
        · omega
        · exact empty
      subst empty
      rw [scanLinuxRelease_eq, List.append_nil, searchedRelease]
      cases bannerSearch (tail ++ [0]) <;> rfl
    · rename_i filled
      have some := List.length_pos_iff.mpr filled
      rw [List.length_take] at some
      have whole : tail ++ rest ++ [0] =
          tail ++ rest.take chunkBytes ++ (rest.drop chunkBytes ++ [0]) := by
        conv_lhs => rw [← List.take_append_drop chunkBytes rest]
        simp only [List.append_assoc]
      rw [scanLinuxRelease_eq, whole]
      cases found : bannerSearch (tail ++ rest.take chunkBytes) with
      | some token =>
        rw [searchedRelease, bannerSearch_extend found]
        rfl
      | none =>
        have next : (rest.drop chunkBytes).length < size := by
          rw [List.length_drop]
          omega
        have bounded : scanned + (rest.take chunkBytes).length + (rest.drop chunkBytes).length <
            bootMemberMaxBytes := by
          rw [List.length_take, List.length_drop]
          omega
        rw [searchedRelease, bannerSearch_overlap found, ← List.append_assoc, ← searchedRelease]
        exact ih _ next bounded _ rfl

theorem scanInParts_bannerRelease (scanned : Nat) (tail rest : Bytes) :
    scanInParts bannerScanChunkBytes scanned tail rest = bannerRelease scanned tail rest := by
  induction left : rest.length using Nat.strongRecOn generalizing scanned tail rest with
  | ind size ih =>
    have positive : 0 < bannerScanChunkBytes := by decide
    have empty : rest.take bannerScanChunkBytes = [] ↔ rest = [] := by
      simp only [List.take_eq_nil_iff, positive.ne', false_or]
    rw [scanInParts, bannerRelease]
    simp only [empty]
    split
    · rfl
    split
    · rfl
    · rename_i more
      have some := List.length_pos_iff.mpr more
      congr 1
      funext release
      cases release with
      | some release => rfl
      | none =>
        refine ih _ ?_ _ _ _ rfl
        rw [List.length_drop]
        omega

theorem searchedRelease_ok {release : Str} : searchedRelease (boot ++ [0]) = .ok release ↔
    ∃ i token, FirstBanner boot i token ∧ release = token.map UInt8.toNat := by
  rw [searchedRelease]
  constructor
  · intro found
    split at found
    · rename_i token searched
      obtain ⟨i, here, -, before⟩ := bannerSearch_eq_some searched
      refine ⟨i, token, ⟨completeBanner_iff.mpr here, fun j earlier other complete => ?_⟩, ?_⟩
      · rw [completeBanner_iff, before j earlier] at complete
        cases complete
      · exact (Except.ok.inj found).symm
    · cases found
  · rintro ⟨i, token, ⟨complete, first⟩, rfl⟩
    rw [completeBanner_iff] at complete
    cases searched : bannerSearch (boot ++ [0]) with
    | none =>
      rw [bannerSearch_eq_none searched] at complete
      cases complete
    | some other =>
      obtain ⟨k, here, -, before⟩ := bannerSearch_eq_some searched
      have same : i = k := by
        rcases Nat.lt_trichotomy i k with less | same | more
        · rw [before i less] at complete
          cases complete
        · exact same
        · exact absurd (completeBanner_iff.mpr here) (first k more other)
      rw [← same, complete] at here
      rw [Option.some.inj here]

theorem searchedRelease_error : (∃ error, searchedRelease (boot ++ [0]) = .error error) ↔
    ¬ ∃ i token, CompleteBanner boot i token := by
  rw [searchedRelease]
  constructor
  · rintro ⟨error, refused⟩ ⟨i, token, complete⟩
    rw [completeBanner_iff] at complete
    split at refused
    · cases refused
    · rename_i searched
      rw [bannerSearch_eq_none searched] at complete
      cases complete
  · intro missing
    split
    · rename_i token searched
      obtain ⟨i, here, -, -⟩ := bannerSearch_eq_some searched
      exact absurd ⟨i, token, completeBanner_iff.mpr here⟩ missing
    · exact ⟨_, rfl⟩

/-- A member below the limit has the release of its first complete banner, read in parts of any size;
the scan raises if and only if there is none. -/
theorem release_of_parts (boot : Bytes) (small : boot.length < bootMemberMaxBytes)
    (chunkBytes : Nat) (positive : 1 ≤ chunkBytes) :
    (∀ release, scanInParts chunkBytes 0 [] boot = .ok release ↔
      ∃ i token, FirstBanner boot i token ∧ release = token.map UInt8.toNat) ∧
    ((∃ error, scanInParts chunkBytes 0 [] boot = .error error) ↔
      ¬ ∃ i token, CompleteBanner boot i token) ∧
    scanInParts chunkBytes 0 [] boot = bootRelease boot .ppc64le := by
  have bounded : 0 + boot.length < bootMemberMaxBytes := by omega
  have searched {size : Nat} (positive : 1 ≤ size) :
      scanInParts size 0 [] boot = searchedRelease (boot ++ [0]) := scanInParts_eq positive bounded []
  rw [searched positive]
  refine ⟨fun release => searchedRelease_ok, searchedRelease_error, ?_⟩
  rw [bootRelease, ← scanInParts_bannerRelease, searched (by decide)]

/-- Parts of one byte: the first marker has no release behind it, and the member ends with one. -/
theorem release_of_single_bytes :
    scanInParts 1 0 [] ("Linux version -x Linux version 6.1".toUTF8.data.toList) = .ok (str "6.1") := by
  have found := ((release_of_parts ("Linux version -x Linux version 6.1".toUTF8.data.toList)
    (by decide +kernel) 1 (Nat.le_refl 1)).2.2)
  rw [found, bootRelease, ← scanInParts_bannerRelease, scanInParts_eq (by decide) (by decide +kernel)]
  exact eq_ok_of_toOption (by decide +kernel)

end Banner

section Generator

structure SharedFile where
  bytes : Bytes
  position : Nat

def SharedFile.seek (file : SharedFile) (position : Nat) : SharedFile := { file with position }

def SharedFile.read (file : SharedFile) (size : Nat) : Bytes × SharedFile :=
  let data := slice file.bytes file.position (file.position + size)
  (data, file.seek (file.position + data.length))

def findFrom (magic data : Bytes) (start : Nat) : Option Nat :=
  (List.range (data.length + 1)).find? fun i => start ≤ i && magic.isPrefixOf (data.drop i)

def carried (magic data : Bytes) : Bytes :=
  match magic.length with
  | 0 => data.drop 1
  | 1 => data
  | n + 2 => data.drop (data.length - (n + 1))

structure Suspended where
  overlap : Bytes
  chunk : Bytes
  position : Nat
  count : Nat
  start : Nat

def Suspended.data (frame : Suspended) : Bytes := frame.overlap ++ frame.chunk

def Suspended.base (frame : Suspended) : Nat := frame.position - frame.overlap.length

inductive Given where
  | yielded (offset : Nat) (frame : Suspended) (file : SharedFile)
  | ended (file : SharedFile)
  | raised (error : Exc) (file : SharedFile)

def tooManyCandidates : Exc := .failure ⟨"boot/vmlinuz exceeds the compression-candidate work limit"⟩

def foundAt (frame : Suspended) (index : Nat) (file : SharedFile) : Given :=
  if frame.count + 1 > compressionCandidatesMax then .raised tooManyCandidates file
  else .yielded (frame.base + index) { frame with count := frame.count + 1, start := index + 1 } file

def outerLoop (chunkBytes : Nat) (magic overlap : Bytes) (position count : Nat)
    (file : SharedFile) : Given :=
  let read := (file.seek position).read chunkBytes
  if _ended : read.1 = [] then .ended read.2
  else
    let frame : Suspended := ⟨overlap, read.1, position, count, 0⟩
    match findFrom magic frame.data 0 with
    | some index => foundAt frame index read.2
    | none => outerLoop chunkBytes magic (carried magic frame.data) (position + read.1.length) count
        read.2
termination_by file.bytes.length - position
decreasing_by
  have filled := List.length_pos_iff.mpr _ended
  simp only [read, SharedFile.read, SharedFile.seek, slice, List.length_take,
    List.length_drop] at filled ⊢
  omega

def resumed (chunkBytes : Nat) (magic : Bytes) (frame : Suspended) (file : SharedFile) : Given :=
  match findFrom magic frame.data frame.start with
  | some index => foundAt frame index file
  | none => outerLoop chunkBytes magic (carried magic frame.data)
      (frame.position + frame.chunk.length) frame.count file

def begun (chunkBytes : Nat) (magic : Bytes) (file : SharedFile) : Given :=
  outerLoop chunkBytes magic [] 0 0 (file.seek 0)

def Given.left : Given → Nat
  | .yielded _ frame _ => compressionCandidatesMax - frame.count + 1
  | _ => 0

theorem foundAt_left (frame : Suspended) (index : Nat) (file : SharedFile) :
    (foundAt frame index file).left < compressionCandidatesMax - frame.count + 1 := by
  rw [foundAt]
  split
  · exact Nat.succ_pos _
  · simp only [Given.left]
    omega

theorem outerLoop_left (chunkBytes : Nat) (magic overlap : Bytes) (position count : Nat)
    (file : SharedFile) : (outerLoop chunkBytes magic overlap position count file).left <
      compressionCandidatesMax - count + 1 := by
  fun_induction outerLoop chunkBytes magic overlap position count file with
  | case1 => exact Nat.succ_pos _
  | case2 => exact foundAt_left _ _ _
  | case3 overlap position file read ended frame missing ih => exact ih

theorem resumed_left (chunkBytes : Nat) (magic : Bytes) (frame : Suspended) (file : SharedFile) :
    (resumed chunkBytes magic frame file).left < compressionCandidatesMax - frame.count + 1 := by
  rw [resumed]
  split
  · exact foundAt_left _ _ _
  · exact outerLoop_left _ _ _ _ _ _

/-- A consumer asks for all the offsets; with those it has had, it leaves the position of the file
where it likes. The offsets, and the exception that ended them. -/
def consumed (chunkBytes : Nat) (magic : Bytes) (moved : List Nat → Nat) (offsets : List Nat) :
    Given → List Nat × Option Exc
  | .ended _ => (offsets, none)
  | .raised error _ => (offsets, some error)
  | .yielded offset frame file =>
    consumed chunkBytes magic moved (offsets ++ [offset])
      (resumed chunkBytes magic frame (file.seek (moved (offsets ++ [offset]))))
termination_by given => given.left
decreasing_by exact resumed_left _ _ _ _

end Generator

section Occurrences

variable {source magic data : Bytes} {base sought : Nat}

def occurs (source magic : Bytes) (i : Nat) : Bool := magic.isPrefixOf (source.drop i)

def NextAt (source magic : Bytes) (sought o : Nat) : Prop :=
  sought ≤ o ∧ occurs source magic o = true ∧ ∀ j, sought ≤ j → j < o → occurs source magic j = false

def later (source magic : Bytes) (sought : Nat) : List Nat :=
  (magicOffsets source magic).filter (sought ≤ ·)

theorem occurs_inside {i : Nat} (found : occurs source magic i = true) (filled : 0 < magic.length) :
    i + magic.length ≤ source.length := by
  have short := (List.isPrefixOf_iff_prefix.mp found).length_le
  rw [List.length_drop] at short
  omega

/-- In data that lies in the file at `base`, the magic is found where the file has it. -/
theorem occurs_of_data (lies : data <+: source.drop base) {i : Nat}
    (found : magic.isPrefixOf (data.drop i) = true) : occurs source magic (base + i) = true := by
  have deeper := lies.drop i
  rw [List.drop_drop] at deeper
  exact List.isPrefixOf_iff_prefix.mpr ((List.isPrefixOf_iff_prefix.mp found).trans deeper)

theorem data_of_occurs (lies : data <+: source.drop base) {i : Nat}
    (found : occurs source magic (base + i) = true) (inside : i + magic.length ≤ data.length) :
    magic.isPrefixOf (data.drop i) = true := by
  have deeper := lies.drop i
  rw [List.drop_drop] at deeper
  refine List.isPrefixOf_iff_prefix.mpr
    (List.prefix_of_prefix_length_le (List.isPrefixOf_iff_prefix.mp found) deeper ?_)
  rw [List.length_drop]
  omega

theorem findFrom_eq_some {start index : Nat} (found : findFrom magic data start = some index) :
    start ≤ index ∧ magic.isPrefixOf (data.drop index) = true ∧
      ∀ j, start ≤ j → j < index → magic.isPrefixOf (data.drop j) = false := by
  obtain ⟨here, -, before⟩ := List.find?_range_eq_some.mp found
  simp only [Bool.and_eq_true, decide_eq_true_eq] at here
  refine ⟨here.1, here.2, fun j starts less => ?_⟩
  simpa [starts] using before j less

theorem findFrom_eq_none {start : Nat} (missing : findFrom magic data start = none) {j : Nat}
    (starts : start ≤ j) (inside : j ≤ data.length) : magic.isPrefixOf (data.drop j) = false := by
  have none := List.find?_range_eq_none.mp missing j (by omega)
  simpa [starts] using none

theorem mem_later {o : Nat} (filled : 0 < magic.length) :
    o ∈ later source magic sought ↔ sought ≤ o ∧ occurs source magic o = true := by
  simp only [later, magicOffsets, List.mem_filter, List.mem_range, decide_eq_true_eq]
  constructor
  · rintro ⟨⟨-, found⟩, starts⟩
    exact ⟨starts, found⟩
  · rintro ⟨starts, found⟩
    have inside := occurs_inside found filled
    exact ⟨⟨by omega, found⟩, starts⟩

theorem pairwise_later : (later source magic sought).Pairwise (· < ·) :=
  (List.pairwise_lt_range.filter _).filter _

theorem later_of_none (filled : 0 < magic.length)
    (none : ∀ o, sought ≤ o → occurs source magic o = false) : later source magic sought = [] := by
  refine List.eq_nil_iff_forall_not_mem.mpr fun o member => ?_
  obtain ⟨starts, found⟩ := (mem_later filled).mp member
  rw [none o starts] at found
  cases found

theorem later_of_next (filled : 0 < magic.length) {o : Nat} (next : NextAt source magic sought o) :
    later source magic sought = o :: later source magic (o + 1) := by
  obtain ⟨starts, here, before⟩ := next
  have sorted : (o :: later source magic (o + 1)).Pairwise (· < ·) := by
    refine List.pairwise_cons.mpr ⟨fun other member => ?_, pairwise_later⟩
    exact ((mem_later filled).mp member).1
  refine pairwise_later.eq_of_mem_iff sorted fun other => ?_
  rw [List.mem_cons, mem_later filled, mem_later filled]
  constructor
  · rintro ⟨reached, found⟩
    rcases Nat.lt_trichotomy other o with less | same | more
    · rw [before other reached less] at found
      cases found
    · exact .inl same
    · exact .inr ⟨more, found⟩
  · rintro (rfl | ⟨past, found⟩)
    · exact ⟨starts, here⟩
    · exact ⟨by omega, found⟩

end Occurrences

section Offsets

variable {source magic : Bytes} {count sought : Nat}

/-- The searched data lies in the file at its base, and an occurrence before `start` fits in it. -/
structure Suspended.Placed (frame : Suspended) (source magic : Bytes) : Prop where
  back : frame.overlap.length ≤ frame.position
  lies : frame.data <+: source.drop frame.base
  fits : frame.start = 0 ∨ frame.start + magic.length ≤ frame.data.length + 1

/-- What a request may give after `count` offsets, all the occurrences before `sought`. -/
inductive Answers (source magic : Bytes) (count sought : Nat) : Given → Prop where
  | ended {file : SharedFile} (missing : ∀ o, sought ≤ o → occurs source magic o = false) :
      Answers source magic count sought (.ended file)
  | raised {file : SharedFile} {o : Nat} (next : NextAt source magic sought o)
      (full : count + 1 > compressionCandidatesMax) :
      Answers source magic count sought (.raised tooManyCandidates file)
  | yielded {frame : Suspended} {file : SharedFile} {o : Nat} (next : NextAt source magic sought o)
      (room : ¬ count + 1 > compressionCandidatesMax) (counted : frame.count = count + 1)
      (after : frame.base + frame.start = o + 1) (placed : frame.Placed source magic)
      (same : file.bytes = source) : Answers source magic count sought (.yielded o frame file)

theorem NextAt.earlier {first o : Nat} (le : first ≤ sought)
    (skipped : ∀ j, first ≤ j → j < sought → occurs source magic j = false)
    (next : NextAt source magic sought o) : NextAt source magic first o := by
  obtain ⟨starts, here, before⟩ := next
  refine ⟨le.trans starts, here, fun j reached less => ?_⟩
  by_cases under : j < sought
  · exact skipped j reached under
  · exact before j (Nat.le_of_not_lt under) less

theorem Answers.earlier {first : Nat} {given : Given} (le : first ≤ sought)
    (skipped : ∀ j, first ≤ j → j < sought → occurs source magic j = false)
    (answers : Answers source magic count sought given) :
    Answers source magic count first given := by
  cases answers with
  | ended missing =>
    refine .ended fun o reached => ?_
    by_cases under : o < sought
    · exact skipped o reached under
    · exact missing o (Nat.le_of_not_lt under)
  | raised next full => exact .raised (next.earlier le skipped) full
  | yielded next room counted after placed same =>
    exact .yielded (next.earlier le skipped) room counted after placed same

theorem not_occurs_of_data {data : Bytes} {base j : Nat} (lies : data <+: source.drop base)
    (reached : base ≤ j) (inside : j - base + magic.length ≤ data.length)
    (missing : magic.isPrefixOf (data.drop (j - base)) = false) : occurs source magic j = false := by
  by_contra found
  rw [Bool.not_eq_false] at found
  have here : base + (j - base) = j := by omega
  rw [data_of_occurs lies (by rw [here]; exact found) inside] at missing
  cases missing

theorem foundAt_answers (wide : 2 ≤ magic.length) {frame : Suspended} {index : Nat}
    {file : SharedFile} (placed : frame.Placed source magic) (same : file.bytes = source)
    (found : findFrom magic frame.data frame.start = some index) :
    Answers source magic frame.count (frame.base + frame.start) (foundAt frame index file) := by
  obtain ⟨starts, here, before⟩ := findFrom_eq_some found
  have inside : index + magic.length ≤ frame.data.length := by
    have short := (List.isPrefixOf_iff_prefix.mp here).length_le
    rw [List.length_drop] at short
    omega
  have next : NextAt source magic (frame.base + frame.start) (frame.base + index) := by
    refine ⟨by omega, occurs_of_data placed.lies here, fun j reached less => ?_⟩
    exact not_occurs_of_data placed.lies (by omega) (by omega) (before _ (by omega) (by omega))
  rw [foundAt]
  split
  · rename_i full
    exact .raised next full
  · rename_i room
    exact .yielded next room rfl rfl ⟨placed.back, placed.lies, .inr (by
      change index + 1 + magic.length ≤ frame.data.length + 1
      omega)⟩ same

theorem carried_eq (wide : 2 ≤ magic.length) (data : Bytes) :
    carried magic data = data.drop (data.length - (magic.length - 1)) := by
  rw [carried]
  split
  · omega
  · omega
  · rename_i n size
    rw [size]
    rfl

/-- The head of the outer loop: the overlap lies before the position, and is shorter than the
magic. -/
structure Headed (source magic overlap : Bytes) (position : Nat) : Prop where
  back : overlap.length ≤ position
  lies : overlap <+: source.drop (position - overlap.length)
  short : overlap.length < magic.length

/-- When the data has been searched to its end, what is carried has no occurrence before it. -/
theorem Suspended.Placed.headed (wide : 2 ≤ magic.length) {frame : Suspended}
    (placed : frame.Placed source magic)
    (missing : findFrom magic frame.data frame.start = none) :
    let position := frame.position + frame.chunk.length
    let overlap := carried magic frame.data
    Headed source magic overlap position ∧ frame.base + frame.start ≤ position - overlap.length ∧
      ∀ j, frame.base + frame.start ≤ j → j < position - overlap.length →
        occurs source magic j = false := by
  obtain ⟨back, lies, fits⟩ := placed
  have size : frame.base + frame.data.length = frame.position + frame.chunk.length := by
    rw [Suspended.base, Suspended.data, List.length_append]
    omega
  dsimp only
  have carriedSize : (carried magic frame.data).length = min (magic.length - 1) frame.data.length := by
    rw [carried_eq wide, List.length_drop]
    omega
  have start : frame.position + frame.chunk.length - (carried magic frame.data).length =
      frame.base + (frame.data.length - (magic.length - 1)) := by
    omega
  refine ⟨⟨by omega, ?_, by omega⟩, by omega, fun j reached less => ?_⟩
  · rw [start, carried_eq wide, ← List.drop_drop]
    exact lies.drop _
  · exact not_occurs_of_data lies (by omega) (by omega) (findFrom_eq_none missing (by omega) (by omega))

theorem Headed.placed {overlap : Bytes} {position : Nat} (headed : Headed source magic overlap position)
    (size count : Nat) :
    (Suspended.mk overlap (slice source position (position + size)) position count 0).Placed
      source magic := by
  obtain ⟨back, lies, short⟩ := headed
  refine ⟨back, ?_, .inl rfl⟩
  obtain ⟨rest, split⟩ := lies
  have behind : rest = source.drop position := by
    have dropped := congrArg (List.drop overlap.length) split
    rw [List.drop_left, List.drop_drop] at dropped
    rw [dropped]
    congr 1
    omega
  simp only [Suspended.data, Suspended.base, slice]
  rw [← split, behind]
  exact (List.prefix_append_right_inj _).mpr (List.take_prefix _ _)

theorem outerLoop_answers (wide : 2 ≤ magic.length) {chunkBytes : Nat} (positive : 1 ≤ chunkBytes)
    (overlap : Bytes) (position count : Nat) (file : SharedFile)
    (headed : Headed file.bytes magic overlap position) :
    Answers file.bytes magic count (position - overlap.length)
      (outerLoop chunkBytes magic overlap position count file) := by
  fun_induction outerLoop chunkBytes magic overlap position count file with
  | case1 overlap position file read ended =>
    refine .ended fun o reached => ?_
    by_contra found
    rw [Bool.not_eq_false] at found
    have inside := occurs_inside found (by omega)
    have atEnd := congrArg List.length ended
    simp only [read, SharedFile.read, SharedFile.seek, slice, List.length_take, List.length_drop,
      List.length_nil] at atEnd
    have short := headed.short
    omega
  | case2 overlap position file read ended frame index found =>
    exact foundAt_answers wide (headed.placed _ _) rfl found
  | case3 overlap position file read ended frame missing ih =>
    obtain ⟨headed', le, skipped⟩ := (headed.placed chunkBytes count).headed wide missing
    exact (ih headed').earlier le skipped

theorem resumed_answers (wide : 2 ≤ magic.length) {chunkBytes : Nat} (positive : 1 ≤ chunkBytes)
    {frame : Suspended} {file : SharedFile} (placed : frame.Placed file.bytes magic) :
    Answers file.bytes magic frame.count (frame.base + frame.start)
      (resumed chunkBytes magic frame file) := by
  rw [resumed]
  split
  · rename_i index found
    exact foundAt_answers wide placed rfl found
  · rename_i missing
    obtain ⟨headed, le, skipped⟩ := placed.headed wide missing
    exact (outerLoop_answers wide positive _ _ _ _ headed).earlier le skipped

/-- From any request on, the consumer is given the occurrences that are left, up to the limit. -/
theorem consumed_eq (wide : 2 ≤ magic.length) {chunkBytes : Nat} (positive : 1 ≤ chunkBytes)
    (moved : List Nat → Nat) (offsets : List Nat) (given : Given)
    (answers : Answers source magic count sought given) :
    consumed chunkBytes magic moved offsets given =
      (offsets ++ (later source magic sought).take (compressionCandidatesMax - count),
        if (later source magic sought).length ≤ compressionCandidatesMax - count then none
        else some tooManyCandidates) := by
  fun_induction consumed chunkBytes magic moved offsets given generalizing count sought with
  | case1 offsets file =>
    cases answers with
    | ended missing =>
      rw [later_of_none (by omega) missing, List.take_nil, List.append_nil, List.length_nil,
        if_pos (Nat.zero_le _)]
  | case2 offsets error file =>
    cases answers with
    | raised next full =>
      rw [later_of_next (by omega) next, List.length_cons, if_neg (by omega)]
      have zero : compressionCandidatesMax - count = 0 := by omega
      rw [zero, List.take_zero, List.append_nil]
  | case3 offsets offset frame file ih =>
    cases answers with
    | yielded next room counted after placed same =>
      subst same
      -- wherever the consumer has left the position, the bytes are the same
      have placed : frame.Placed (file.seek (moved (offsets ++ [offset]))).bytes magic := placed
      rw [ih (resumed_answers wide positive placed), after, later_of_next (by omega) next, counted]
      obtain ⟨n, size⟩ : ∃ n, compressionCandidatesMax - count = n + 1 :=
        ⟨compressionCandidatesMax - (count + 1), by omega⟩
      have less : compressionCandidatesMax - (count + 1) = n := by omega
      rw [size, less, List.take_succ_cons, List.append_assoc, List.length_cons]
      simp only [List.singleton_append, Nat.add_le_add_iff_right]

theorem begun_answers (wide : 2 ≤ magic.length) {chunkBytes : Nat} (positive : 1 ≤ chunkBytes)
    (file : SharedFile) : Answers file.bytes magic 0 0 (begun chunkBytes magic file) :=
  outerLoop_answers wide positive [] 0 0 (file.seek 0)
    ⟨Nat.le_refl 0, List.nil_prefix, by simp only [List.length_nil]; omega⟩

theorem later_zero : later source magic 0 = magicOffsets source magic :=
  List.filter_eq_self.mpr fun o _ => by simp

/-- With no more occurrences than the limit, the consumer is given each of them once and in order,
whatever the size of a part, and wherever it leaves the position of the file. -/
theorem magic_offsets_given (file : SharedFile) (magic : Bytes) (wide : 2 ≤ magic.length)
    (few : (magicOffsets file.bytes magic).length ≤ compressionCandidatesMax)
    (chunkBytes : Nat) (positive : 1 ≤ chunkBytes) (moved : List Nat → Nat) :
    ∃ offsets, consumed chunkBytes magic moved [] (begun chunkBytes magic file) = (offsets, none) ∧
      offsets = magicOffsets file.bytes magic ∧ offsets.Pairwise (· < ·) ∧
      ∀ o, o ∈ offsets ↔ magic <+: file.bytes.drop o := by
  refine ⟨_, ?_, rfl, ?_, fun o => ?_⟩
  · rw [consumed_eq wide positive moved [] _ (begun_answers wide positive file), later_zero,
      Nat.sub_zero, if_pos few, List.take_of_length_le few, List.nil_append]
  · rw [← later_zero]
    exact pairwise_later
  · rw [← later_zero, mem_later (by omega), occurs, List.isPrefixOf_iff_prefix]
    exact ⟨fun here => here.2, fun here => ⟨Nat.zero_le o, here⟩⟩

/-- Occurrences that overlap and are cut by every part; the consumer goes to the end each time. -/
theorem magic_offsets_overlapping :
    (consumed 2 [1, 2, 1] (fun _ => 7) [] (begun 2 [1, 2, 1] ⟨[1, 2, 1, 2, 1, 0, 0], 3⟩)).1 =
      [0, 2] := by
  obtain ⟨offsets, given, same, -⟩ := magic_offsets_given ⟨[1, 2, 1, 2, 1, 0, 0], 3⟩ [1, 2, 1]
    (by decide) (by decide) 2 (by decide) (fun _ => 7)
  rw [given, same]
  decide

end Offsets

end Kdive.Bundles
