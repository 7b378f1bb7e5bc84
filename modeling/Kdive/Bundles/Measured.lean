import Kdive.Bundles.Elf
import Mathlib.Data.Int.Interval
import Mathlib.Order.Interval.Finset.Nat

/-!
What a bounded reader of ELF metadata counts. The count is taken anew for every read, by a sweep
over the sorted ranges; it is the number of offsets that the successful reads cover, however they
overlap. The calls may ask for anything, and the file may be shorter than the size it was given.
-/
namespace Kdive.Bundles
open Raises

section Sweep

def offsets (range : Nat × Nat) : Finset Nat := Finset.Ico range.1 range.2

def covered (ranges : List (Nat × Nat)) : Finset Nat := ranges.toFinset.biUnion offsets

theorem mem_covered {ranges : List (Nat × Nat)} {n : Nat} :
    n ∈ covered ranges ↔ ∃ range ∈ ranges, range.1 ≤ n ∧ n < range.2 := by
  simp [covered, offsets]

def swept (state range : Nat × Nat) : Nat × Nat :=
  if range.2 ≤ state.2 then state
  else (state.1 + (range.2 - max range.1 state.2), range.2)

def Before (a b : Nat × Nat) : Prop := a.1 < b.1 ∨ (a.1 = b.1 ∧ a.2 ≤ b.2)

instance : DecidableRel Before := fun a b => by unfold Before; infer_instance

theorem intervalBytes_eq (ranges : List (Nat × Nat)) :
    intervalBytes ranges = ((ranges.insertionSort Before).foldl swept (0, 0)).1 := rfl

/-- What a range adds to the offsets from `reached` on, if every later range starts no earlier. -/
theorem covered_split {range : Nat × Nat} {rest : List (Nat × Nat)} {reached : Nat}
    (later : ∀ other ∈ rest, range.1 ≤ other.1) (beyond : reached < range.2) :
    (covered (range :: rest)).filter (reached ≤ ·) =
      Finset.Ico (max range.1 reached) range.2 ∪ (covered rest).filter (range.2 ≤ ·) := by
  ext n
  simp only [Finset.mem_filter, mem_covered, List.mem_cons, exists_eq_or_imp, Finset.mem_union,
    Finset.mem_Ico, max_le_iff]
  constructor
  · rintro ⟨inside | ⟨other, held, inside⟩, reaches⟩
    · exact .inl ⟨⟨inside.1, reaches⟩, inside.2⟩
    · by_cases under : n < range.2
      · exact .inl ⟨⟨(later other held).trans inside.1, reaches⟩, under⟩
      · exact .inr ⟨⟨other, held, inside⟩, Nat.le_of_not_lt under⟩
  · rintro (⟨⟨starts, reaches⟩, ends⟩ | ⟨held, past⟩)
    · exact ⟨.inl ⟨starts, ends⟩, reaches⟩
    · exact ⟨.inr held, beyond.le.trans past⟩

theorem foldl_swept {ranges : List (Nat × Nat)}
    (sorted : ranges.Pairwise (fun a b => a.1 ≤ b.1)) (total reached : Nat) :
    (ranges.foldl swept (total, reached)).1 =
      total + ((covered ranges).filter (reached ≤ ·)).card := by
  induction ranges generalizing total reached with
  | nil => simp [covered]
  | cons range rest ih =>
    obtain ⟨later, sorted⟩ := List.pairwise_cons.mp sorted
    rw [List.foldl_cons, swept]
    split
    · rename_i behind
      have same : (covered (range :: rest)).filter (reached ≤ ·) =
          (covered rest).filter (reached ≤ ·) := by
        ext n
        simp only [Finset.mem_filter, mem_covered, List.mem_cons, exists_eq_or_imp]
        constructor
        · rintro ⟨inside | held, reaches⟩
          · simp only at behind
            omega
          · exact ⟨held, reaches⟩
        · rintro ⟨held, reaches⟩
          exact ⟨.inr held, reaches⟩
      rw [ih sorted, same]
    · rename_i beyond
      have disjoint : Disjoint (Finset.Ico (max range.1 reached) range.2)
          ((covered rest).filter (range.2 ≤ ·)) := by
        rw [Finset.disjoint_left]
        intro n inside past
        have under := (Finset.mem_Ico.mp inside).2
        have after := (Finset.mem_filter.mp past).2
        omega
      rw [ih sorted, covered_split later (Nat.lt_of_not_le beyond),
        Finset.card_union_of_disjoint disjoint, Nat.card_Ico]
      omega

theorem covered_perm {ranges others : List (Nat × Nat)} (same : ranges.Perm others) :
    covered ranges = covered others := by
  ext n
  simp only [mem_covered, same.mem_iff]

theorem intervalBytes_card (ranges : List (Nat × Nat)) :
    intervalBytes ranges = (covered ranges).card := by
  have total : Std.Total Before := ⟨fun a b => by unfold Before; omega⟩
  have trans : IsTrans (Nat × Nat) Before := ⟨fun a b c => by unfold Before; omega⟩
  have sorted : (ranges.insertionSort Before).Pairwise (fun a b => a.1 ≤ b.1) := by
    refine (List.pairwise_insertionSort Before ranges).imp ?_
    intro a b before
    rcases before with less | ⟨same, _⟩
    · exact less.le
    · exact same.le
  rw [intervalBytes_eq, foldl_swept sorted, Nat.zero_add,
    covered_perm (List.perm_insertionSort Before ranges)]
  congr 1
  exact Finset.filter_true_of_mem (fun n _ => Nat.zero_le n)

end Sweep

section Reader

structure SizedElfReader where
  source : Bytes
  size : Int
  intervals : List (Nat × Nat) := []

namespace SizedElfReader

def measuredBytes (r : SizedElfReader) : Nat := intervalBytes r.intervals

def read (r : SizedElfReader) (offset length : Int) : Except Exc Bytes × SizedElfReader :=
  if offset < 0 ∨ length < 0 ∨ offset + length > r.size then
    (failed "decoded boot/vmlinuz ELF metadata extends past the object", r)
  else
    let intervals := r.intervals ++ [(offset.toNat, (offset + length).toNat)]
    if intervalBytes intervals > elfMetadataMaxBytes then
      (failed "decoded boot/vmlinuz exceeds the ELF metadata read limit", r)
    else
      let data := slice r.source offset.toNat (offset + length).toNat
      if (data.length : Int) ≠ length then
        (failed "decoded boot/vmlinuz ELF metadata is truncated", r)
      else (.ok data, { r with intervals := intervals })

theorem read_sized (r : BoundedElfReader) (offset length : Nat) :
    (⟨r.source, r.source.length, r.intervals⟩ : SizedElfReader).read offset length =
      match r.read offset length with
      | .ok (data, after) => (.ok data, ⟨r.source, r.source.length, after.intervals⟩)
      | .error error => (.error error, ⟨r.source, r.source.length, r.intervals⟩) := by
  have outside : ((offset : Int) < 0 ∨ (length : Int) < 0 ∨
      (offset : Int) + length > r.source.length) ↔ offset + length > r.source.length := by
    omega
  have stop : ((offset : Int) + length).toNat = offset + length := by omega
  have short (data : Bytes) : (data.length : Int) ≠ length ↔ data.length ≠ length := by omega
  simp only [read, BoundedElfReader.read, outside, stop, Int.toNat_natCast, short]
  split
  · rfl
  split
  · rfl
  split <;> rfl

theorem read_cases (r : SizedElfReader) (offset length : Int) :
    (∃ error, r.read offset length = (.error error, r)) ∨
      ∃ data, 0 ≤ offset ∧ 0 ≤ length ∧
        intervalBytes (r.intervals ++ [(offset.toNat, (offset + length).toNat)]) ≤
          elfMetadataMaxBytes ∧
        r.read offset length = (.ok data, { r with
          intervals := r.intervals ++ [(offset.toNat, (offset + length).toNat)] }) := by
  rw [read]
  split
  · exact .inl ⟨_, rfl⟩
  rename_i inside
  simp only [not_or, not_lt] at inside
  dsimp only
  split
  · exact .inl ⟨_, rfl⟩
  rename_i bounded
  split
  · exact .inl ⟨_, rfl⟩
  · exact .inr ⟨_, inside.1, inside.2.1, Nat.le_of_not_lt bounded, rfl⟩

def readAll (r : SizedElfReader) : List (Int × Int) → List (Except Exc Bytes) × SizedElfReader
  | [] => ([], r)
  | (offset, length) :: calls =>
    let (answer, after) := r.read offset length
    let (answers, last) := after.readAll calls
    (answer :: answers, last)

def successes : List (Int × Int) → List (Except Exc Bytes) → List (Int × Int)
  | call :: calls, .ok _ :: answers => call :: successes calls answers
  | _ :: calls, .error _ :: answers => successes calls answers
  | _, _ => []

def fileOffsets (calls : List (Int × Int)) : Finset Int :=
  (calls.flatMap fun call : Int × Int => (List.range call.2.toNat).map fun i : Nat =>
    call.1 + (i : Int)).toFinset

def range (call : Int × Int) : Nat × Nat := (call.1.toNat, (call.1 + call.2).toNat)

/-- Counting below zero is never needed: the calls that succeeded start at zero or later. -/
theorem card_fileOffsets {calls : List (Int × Int)} (positive : ∀ call ∈ calls, 0 ≤ call.1) :
    (fileOffsets calls).card = (covered (calls.map range)).card := by
  have same : fileOffsets calls =
      (covered (calls.map range)).map ⟨((↑) : Nat → Int), Nat.cast_injective⟩ := by
    ext n
    simp only [fileOffsets, List.mem_toFinset, List.mem_flatMap, List.mem_map, List.mem_range,
      Finset.mem_map, mem_covered, Function.Embedding.coeFn_mk]
    constructor
    · rintro ⟨call, held, i, inside, rfl⟩
      have zero := positive call held
      refine ⟨(call.1 + i).toNat, ⟨range call, ⟨call, held, rfl⟩, ?_, ?_⟩, by omega⟩
      · simp only [range]
        omega
      · simp only [range]
        omega
    · rintro ⟨m, ⟨_, ⟨call, held, rfl⟩, starts, ends⟩, rfl⟩
      have zero := positive call held
      simp only [range] at starts ends
      exact ⟨call, held, m - call.1.toNat, by omega, by omega⟩
  rw [same, Finset.card_map]

theorem readAll_spec (r : SizedElfReader) (bounded : r.measuredBytes ≤ elfMetadataMaxBytes)
    (calls : List (Int × Int)) :
    let made := successes calls (r.readAll calls).1
    (r.readAll calls).2.intervals = r.intervals ++ made.map range ∧
      (∀ call ∈ made, 0 ≤ call.1) ∧
      (r.readAll calls).2.measuredBytes ≤ elfMetadataMaxBytes := by
  induction calls generalizing r with
  | nil => simpa [readAll, successes] using bounded
  | cons call calls ih =>
    obtain ⟨offset, length⟩ := call
    rcases read_cases r offset length with ⟨error, read⟩ | ⟨data, zero, _, fits, read⟩
    · simpa [readAll, read, successes] using ih r bounded
    · have rest := ih { r with
        intervals := r.intervals ++ [(offset.toNat, (offset + length).toNat)] } fits
      simp only [readAll, read, successes, List.map_cons, List.forall_mem_cons]
      refine ⟨?_, ⟨zero, rest.2.1⟩, rest.2.2⟩
      rw [rest.1, List.append_assoc]
      rfl

/-- Whatever is asked of a new reader, it has counted the offsets of the file that the answered
calls cover, each once; the count keeps to the limit, and a refused call does not change it. -/
theorem measured_after_calls (source : Bytes) (size : Int) (calls : List (Int × Int)) :
    let (answers, reader) := (SizedElfReader.mk source size []).readAll calls
    reader.measuredBytes = (fileOffsets (successes calls answers)).card ∧
      reader.measuredBytes ≤ elfMetadataMaxBytes ∧
      ∀ offset length error, (reader.read offset length).1 = .error error →
        (reader.read offset length).2.measuredBytes = reader.measuredBytes := by
  have empty : (SizedElfReader.mk source size []).measuredBytes ≤ elfMetadataMaxBytes :=
    Nat.zero_le _
  obtain ⟨ranges, positive, bounded⟩ := readAll_spec _ empty calls
  refine ⟨?_, bounded, ?_⟩
  · rw [measuredBytes, ranges, List.nil_append, intervalBytes_card, card_fileOffsets positive]
  · intro offset length error refused
    rcases read_cases ((SizedElfReader.mk source size []).readAll calls).2 offset length with
      ⟨_, read⟩ | ⟨data, _, _, _, read⟩
    · rw [read]
    · rw [read] at refused
      cases refused

/-- Four ranges that overlap, nest and repeat, one that is empty and one past the end. -/
theorem measured_overlapping :
    let calls : List (Int × Int) := [(2, 4), (0, 3), (3, 1), (2, 4), (5, 0), (6, 4), (-1, 1)]
    let run := (SizedElfReader.mk (List.replicate 8 0) 9 []).readAll calls
    run.2.measuredBytes = 6 ∧
      (fileOffsets (successes calls run.1)).card = 6 ∧
      (run.2.read 6 4).2.measuredBytes = run.2.measuredBytes := by
  obtain ⟨counted, _, kept⟩ := measured_after_calls (List.replicate 8 0) 9
    [(2, 4), (0, 3), (3, 1), (2, 4), (5, 0), (6, 4), (-1, 1)]
  have six : ((SizedElfReader.mk (List.replicate 8 0) 9 []).readAll
      [(2, 4), (0, 3), (3, 1), (2, 4), (5, 0), (6, 4), (-1, 1)]).2.measuredBytes = 6 := by
    decide +kernel
  exact ⟨six, counted.symm.trans six, kept 6 4 _ rfl⟩

end SizedElfReader

end Reader

end Kdive.Bundles
