import Kdive.Bundles.Elf

/-!
`_inspect_boot_member`: the release that `boot/vmlinuz` names, the kernel that is packed in it, and
what the kernel's ELF headers say.
-/
namespace Kdive.Bundles
open PosixPath (Str str)
open Raises

section BootRelease

def bzimageMagic : Bytes := [0x48, 0x64, 0x72, 0x53]

def bannerScanChunkBytes : Nat := 16 * 1024 * 1024

def bannerScanOverlapBytes : Nat := bannerMarker.length + 64 + 1

def bootMemberMaxBytes : Nat := 512 * 1024 * 1024

/-- `partition`: what stands before the separator, and whether there is one. -/
def before (separator : UInt8) (value : Bytes) : Bytes × Bool :=
  (value.takeWhile (· ≠ separator), separator ∈ value)

def headerRelease (boot : Bytes) : Except Exc Str :=
  let header := slice boot 0 0x300
  if header.length < 0x210 ∨ slice header 0x202 0x206 ≠ bzimageMagic then
    failed "boot/vmlinuz has no usable x86 boot header"
  else
    let offset := 0x200 + littleEndian (slice header 0x20E 0x210)
    let version := before 0 (slice boot offset (offset + 256))
    if version.2 = false then failed "boot/vmlinuz has no bounded x86 kernel version string"
    else validatedRelease (before 0x20 version.1).1

/-- What `_LINUX_BANNER_RE` takes from a banner at the front: no character of a release ends one, so
that the release is all that can be one. -/
def bannerToken (data : Bytes) : Option Bytes :=
  if bannerMarker.isPrefixOf data then
    let rest := data.drop bannerMarker.length
    let token := rest.takeWhile fun b => releaseTail b.toNat
    let last := (rest.drop token.length).head?
    if token.head?.any (fun b => releaseHead b.toNat) ∧ token.length ≤ 64 ∧
        last.any (fun b => b = 0x20 || b = 0x09 || b = 0x0D || b = 0x0A || b = 0) then some token
    else none
  else none

/-- `_LINUX_BANNER_RE.search`. -/
def bannerSearch : Bytes → Option Bytes
  | [] => bannerToken []
  | b :: rest =>
    match bannerToken (b :: rest) with
    | some token => some token
    | none => bannerSearch rest

def scanLinuxRelease (data : Bytes) : Except Exc (Option Str) :=
  match bannerSearch data with
  | none => .ok none
  | some token => (validatedRelease token).map some

def noBanner : Except Exc Str := failed "decoded boot/vmlinuz has no bounded Linux release banner"

def bannerRelease (scanned : Nat) (tail rest : Bytes) : Except Exc Str :=
  if bootMemberMaxBytes ≤ scanned then noBanner
  else if _ended : rest = [] then
    (scanLinuxRelease (tail ++ [0])).bind fun
      | some release => .ok release
      | none => noBanner
  else
    let chunk := rest.take bannerScanChunkBytes
    let data := tail ++ chunk
    (scanLinuxRelease data).bind fun
      | some release => .ok release
      | none => bannerRelease (scanned + chunk.length) (data.drop (data.length - bannerScanOverlapBytes))
          (rest.drop bannerScanChunkBytes)
termination_by rest.length
decreasing_by
  have some := List.length_pos_iff.mpr _ended
  have positive : 0 < bannerScanChunkBytes := by decide
  rw [List.length_drop]
  omega

def bootRelease (boot : Bytes) : Arch → Except Exc Str
  | .x86_64 => headerRelease boot
  | .ppc64le => bannerRelease 0 [] boot

theorem quiet_headerRelease (boot : Bytes) : Quiet (headerRelease boot) :=
  only_ite (fun _ => quiet_failed _) fun _ => only_ite (fun _ => quiet_failed _) fun _ =>
    quiet_validatedRelease _

theorem quiet_scanLinuxRelease (data : Bytes) : Quiet (scanLinuxRelease data) := by
  rw [scanLinuxRelease]
  split
  · exact only_ok _
  · exact only_map (quiet_validatedRelease _)

theorem quiet_bannerRelease (scanned : Nat) (tail rest : Bytes) :
    Quiet (bannerRelease scanned tail rest) := by
  induction left : rest.length using Nat.strongRecOn generalizing scanned tail rest with
  | ind left ih =>
    rw [bannerRelease]
    refine only_ite (fun _ => quiet_failed _) fun _ => ?_
    split
    · refine only_bind (quiet_scanLinuxRelease _) fun release _ => ?_
      cases release with
      | some release => exact only_ok _
      | none => exact quiet_failed _
    · rename_i more
      refine only_bind (quiet_scanLinuxRelease _) fun release _ => ?_
      cases release with
      | some release => exact only_ok _
      | none =>
        refine ih _ ?_ _ _ _ rfl
        have some := List.length_pos_iff.mpr more
        have positive : 0 < bannerScanChunkBytes := by decide
        rw [List.length_drop]
        omega

theorem quiet_bootRelease (boot : Bytes) (arch : Arch) : Quiet (bootRelease boot arch) := by
  cases arch with
  | x86_64 => exact quiet_headerRelease boot
  | ppc64le => exact quiet_bannerRelease 0 [] boot

end BootRelease

section Decoding

inductive Codec where
  | gzip | bzip2 | xz | zstd
  deriving DecidableEq

def Codec.magic : Codec → Bytes
  | .gzip => [0x1F, 0x8B, 0x08]
  | .bzip2 => [0x42, 0x5A, 0x68]
  | .xz => [0xFD, 0x37, 0x7A, 0x58, 0x5A, 0x00]
  | .zstd => [0x28, 0xB5, 0x2F, 0xFD]

/-- What a codec returns of a stream that starts here before it ends or fails, and whether it ends. It
fails with the end of the file, an error of the system or an error of its own, which are caught. -/
abbrev Decoders := Codec → Bytes → Bytes × Bool

def decodedKernelMaxBytes : Nat := 2 * 1024 * 1024 * 1024

def compressionCandidatesMax : Nat := 64

def magicOffsets (boot magic : Bytes) : List Nat :=
  (List.range boot.length).filter fun offset => magic.isPrefixOf (boot.drop offset)

def candidates (boot : Bytes) : List (Codec × Nat) :=
  [Codec.gzip, .bzip2, .xz, .zstd].flatMap fun codec =>
    (magicOffsets boot codec.magic).map fun offset => (codec, offset)

def tryCandidates (decode : Decoders) (boot : Bytes) :
    (count budget : Nat) → List (Codec × Nat) → Except Exc Bytes
  | _, _, [] => failed
      "boot/vmlinuz does not contain a supported gzip, bzip2, xz, or zstd ELF kernel payload"
  | count, budget, (codec, offset) :: rest =>
    if count + 1 > compressionCandidatesMax then
      failed "boot/vmlinuz exceeds the compression-candidate work limit"
    else
      let (output, ended) := decode codec (boot.drop offset)
      if output.length > budget then
        failed "decoded boot/vmlinuz exceeds the aggregate decompression work limit"
      else if ended ∧ output.take 4 = elf64lePrefix.take 4 then .ok output
      else tryCandidates decode boot (count + 1) (budget - output.length) rest

def decodedKernel (decode : Decoders) (boot : Bytes) : Arch → Except Exc Bytes
  | .ppc64le =>
    if boot.length > decodedKernelMaxBytes then
      failed "decoded boot/vmlinuz exceeds the aggregate decompression work limit"
    else .ok boot
  | .x86_64 => tryCandidates decode boot 0 decodedKernelMaxBytes (candidates boot)

def inspectBootMember (decode : Decoders) (boot : Bytes) (arch : Arch) : Except Exc KernelMetadata :=
  (bootRelease boot arch).bind fun release =>
  (decodedKernel decode boot arch).bind fun kernel =>
  (elfKernelMetadata kernel arch release).bind fun metadata =>
  if metadata.release ≠ release then failed "boot/vmlinuz release disagrees with its decoded kernel"
  else .ok metadata

theorem quiet_tryCandidates (decode : Decoders) (boot : Bytes) (count budget : Nat)
    (tried : List (Codec × Nat)) : Quiet (tryCandidates decode boot count budget tried) := by
  induction tried generalizing count budget with
  | nil => exact quiet_failed _
  | cons candidate rest ih =>
    exact only_ite (fun _ => quiet_failed _) fun _ => only_ite (fun _ => quiet_failed _) fun _ =>
      only_ite (fun _ => only_ok _) fun _ => ih _ _

theorem quiet_decodedKernel (decode : Decoders) (boot : Bytes) (arch : Arch) :
    Quiet (decodedKernel decode boot arch) := by
  cases arch with
  | ppc64le => exact only_ite (fun _ => quiet_failed _) fun _ => only_ok _
  | x86_64 => exact quiet_tryCandidates decode boot 0 _ _

/-- Whatever stands in `boot/vmlinuz`, its inspection raises nothing but build failures. -/
theorem quiet_inspectBootMember (decode : Decoders) (boot : Bytes) (arch : Arch) :
    Quiet (inspectBootMember decode boot arch) :=
  only_bind (quiet_bootRelease boot arch) fun release _ =>
    only_bind (quiet_decodedKernel decode boot arch) fun kernel _ =>
      only_bind (quiet_elfKernelMetadata kernel arch release) fun _ _ =>
        only_ite (fun _ => quiet_failed _) fun _ => only_ok _

end Decoding

end Kdive.Bundles
