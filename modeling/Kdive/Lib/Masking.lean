import Mathlib.Data.List.Forall2
import Mathlib.Data.List.Infix

/-!
Texts in which stretches were replaced by a bracketed marker. A string without the brackets that
can be read off the masked text was already in the original one, unless it is part of the
marker; and where the masked text changed, a bracket shows it. The last two results carry this
across the cuts of a text that is masked piece by piece or window by window.
-/
namespace Masking

variable {α : Type*}

/-- `masked` is `text` with some disjoint stretches replaced by the marker. -/
inductive Masked (marker : List α) : List α → List α → Prop
  | nil : Masked marker [] []
  | keep (a : α) {text masked : List α} :
      Masked marker text masked → Masked marker (a :: text) (a :: masked)
  | mask (stretch : List α) {text masked : List α} :
      Masked marker text masked → Masked marker (stretch ++ text) (marker ++ masked)

namespace Masked

variable {marker text masked : List α}

theorem keep_all (kept : List α) (rest : Masked marker text masked) :
    Masked marker (kept ++ text) (kept ++ masked) := by
  induction kept with
  | nil => exact rest
  | cons a kept ih => exact .keep a ih

theorem refl (text : List α) : Masked marker text text := by
  simpa using keep_all text (nil : Masked marker [] [])

theorem mem_of_mem {a : α} (masks : Masked marker text masked) (found : a ∈ masked) :
    a ∈ text ∨ a ∈ marker := by
  induction masks with
  | nil => exact .inl found
  | keep b _ ih =>
    rcases List.mem_cons.mp found with rfl | later
    · exact .inl List.mem_cons_self
    · exact (ih later).imp_left (List.mem_cons_of_mem b)
  | mask stretch _ ih =>
    rcases List.mem_append.mp found with inside | later
    · exact .inr inside
    · exact (ih later).imp_left (List.mem_append_right stretch)

theorem map {β : Type*} (f : α → β) (masks : Masked marker text masked) :
    Masked (marker.map f) (text.map f) (masked.map f) := by
  induction masks with
  | nil => exact .nil
  | keep a _ ih => exact .keep (f a) ih
  | mask stretch _ ih => simpa using mask (stretch.map f) ih

theorem eq_or_infix (masks : Masked marker text masked) : masked = text ∨ marker <:+: masked := by
  induction masks with
  | nil => exact .inl rfl
  | keep a _ ih =>
    rcases ih with rfl | shown
    · exact .inl rfl
    · exact .inr (shown.trans (List.suffix_cons a _).isInfix)
  | mask stretch _ _ => exact .inr List.infix_append_left

end Masked

theorem infix_append_cons {s left right : List α} {a : α} (without : a ∉ s)
    (found : s <:+: left ++ a :: right) : s <:+: left ∨ s <:+: right := by
  rcases List.infix_append_iff_ne_nil.mp found with inLeft | inRight | ⟨u, v, _, someV, parts, _, lead⟩
  · exact .inl inLeft
  · rcases List.infix_cons_iff.mp inRight with lead | later
    · rcases List.prefix_cons_iff.mp lead with rfl | ⟨t, rfl, _⟩
      · exact .inl List.nil_infix
      · exact absurd List.mem_cons_self without
    · exact .inr later
  · rcases List.prefix_cons_iff.mp lead with empty | ⟨t, rfl, _⟩
    · exact absurd empty someV
    · exact absurd (by simp [parts]) without

/-- What can be read off `shown`, a version of `text` masked with the marker
`opening :: core ++ [closing]`. -/
structure Conceals (opening closing : α) (core text shown : List α) : Prop where
  leading : ∀ v, opening ∉ v → v <+: shown → v <+: text
  trailing : ∀ v, closing ∉ v → v <:+ shown → v <:+ text
  inner : ∀ s, opening ∉ s → closing ∉ s → ¬ s <:+: core → s <:+: shown → s <:+: text
  touched : shown = text ∨ opening ∈ shown ∧ closing ∈ shown

section Brackets

variable {opening closing : α} {core text shown : List α}

theorem Masked.leading (masks : Masked (opening :: (core ++ [closing])) text shown) :
    ∀ v, opening ∉ v → v <+: shown → v <+: text := by
  induction masks with
  | nil =>
    intro v _ lead
    exact lead
  | keep a _ ih =>
    intro v without lead
    rcases List.prefix_cons_iff.mp lead with rfl | ⟨t, rfl, rest⟩
    · exact List.nil_prefix
    · have tail : opening ∉ t := fun bad => without (List.mem_cons_of_mem a bad)
      exact List.prefix_cons_iff.mpr (.inr ⟨t, rfl, ih t tail rest⟩)
  | mask stretch _ _ =>
    intro v without lead
    rcases List.prefix_cons_iff.mp lead with rfl | ⟨t, rfl, _⟩
    · exact List.nil_prefix
    · exact absurd List.mem_cons_self without

theorem Masked.touched (masks : Masked (opening :: (core ++ [closing])) text shown) :
    shown = text ∨ opening ∈ shown ∧ closing ∈ shown := by
  rcases masks.eq_or_infix with same | marked
  · exact .inl same
  · exact .inr ⟨marked.mem (by simp), marked.mem (by simp)⟩

theorem Masked.trailing (masks : Masked (opening :: (core ++ [closing])) text shown) :
    ∀ v, closing ∉ v → v <:+ shown → v <:+ text := by
  induction masks with
  | nil =>
    intro v _ trail
    exact trail
  | keep a rest ih =>
    intro v without trail
    rcases List.suffix_cons_iff.mp trail with rfl | later
    · rcases rest.touched with same | ⟨_, bad⟩
      · rw [same]
      · exact absurd (List.mem_cons_of_mem a bad) without
    · exact (ih v without later).trans (List.suffix_cons a _)
  | @mask stretch text shown rest ih =>
    intro v without trail
    -- a suffix longer than what follows the marker would show its closing bracket
    rcases List.suffix_or_suffix_of_suffix trail (List.suffix_append _ shown) with short | long
    · exact List.suffix_append_of_suffix (ih v without short)
    · obtain ⟨w, rfl⟩ := long
      have within : w <:+ opening :: (core ++ [closing]) := List.suffix_append_self_iff.mp trail
      have noLast : closing ∉ w := fun bad => without (List.mem_append_left _ bad)
      rcases List.eq_nil_or_concat' w with rfl | ⟨front, last, rfl⟩
      · exact List.suffix_append_of_suffix (ih _ without List.suffix_rfl)
      · have same : last = closing := by
          have ends : [last] <:+ opening :: (core ++ [closing]) :=
            (List.suffix_append front [last]).trans within
          simpa using ends
        exact absurd (by simp [same]) noLast

theorem Masked.inner (masks : Masked (opening :: (core ++ [closing])) text shown) :
    ∀ s, opening ∉ s → closing ∉ s → ¬ s <:+: core → s <:+: shown → s <:+: text := by
  induction masks with
  | nil =>
    intro s _ _ _ found
    exact found
  | keep a rest ih =>
    intro s noOpening noClosing notCore found
    rcases List.infix_cons_iff.mp found with lead | later
    · exact ((Masked.keep a rest).leading s noOpening lead).isInfix
    · exact (ih s noOpening noClosing notCore later).trans (List.suffix_cons a _).isInfix
  | @mask stretch text shown rest ih =>
    intro s noOpening noClosing notCore found
    have inMarked : s <:+: [] ++ opening :: (core ++ closing :: shown) := by simpa using found
    rcases infix_append_cons noOpening inMarked with empty | after
    · rw [List.infix_nil.mp empty]
      exact List.nil_infix
    · rcases infix_append_cons noClosing after with inCore | later
      · exact absurd inCore notCore
      · exact List.infix_append_of_infix_right (ih s noOpening noClosing notCore later)

theorem Masked.conceals (masks : Masked (opening :: (core ++ [closing])) text shown) :
    Conceals opening closing core text shown :=
  ⟨masks.leading, masks.trailing, masks.inner, masks.touched⟩

theorem Conceals.trans {final : List α} (first : Conceals opening closing core text shown)
    (second : Conceals opening closing core shown final) :
    Conceals opening closing core text final := by
  constructor
  · intro v without lead
    exact first.leading v without (second.leading v without lead)
  · intro v without trail
    exact first.trailing v without (second.trailing v without trail)
  · intro s noOpening noClosing notCore found
    exact first.inner s noOpening noClosing notCore
      (second.inner s noOpening noClosing notCore found)
  · rcases second.touched with rfl | marked
    · exact first.touched
    · exact .inr marked

/-- The text between a sealed part and a held back window: when the window is long enough to
contain all that could still join the sealed text, or shows a bracket, masking the window with
what follows it completes no string at the cut. -/
theorem Conceals.not_infix_append {sealed window rest s : List α}
    (conceals : Conceals opening closing core (window ++ rest) shown) (noOpening : opening ∉ s)
    (clean : ¬ s <:+: sealed ++ window) (gone : ¬ s <:+: shown)
    (held : sealed = [] ∨ s.length ≤ window.length + 1 ∨ opening ∈ window) :
    ¬ s <:+: sealed ++ shown := by
  intro found
  rcases List.infix_append_iff_ne_nil.mp found with
    inSealed | inShown | ⟨u, v, someU, _, rfl, trail, lead⟩
  · exact clean (List.infix_append_of_infix_left inSealed)
  · exact gone inShown
  · have noOpeningV : opening ∉ v := fun bad => noOpening (List.mem_append_right u bad)
    have original : v <+: window ++ rest := conceals.leading v noOpeningV lead
    have inside : v <+: window := by
      rcases held with rfl | long | bracket
      · exact absurd (List.suffix_nil.mp trail) someU
      · have positive : 0 < u.length := List.length_pos_iff.mpr someU
        have short : v.length ≤ window.length := by
          simp only [List.length_append] at long
          omega
        exact List.prefix_of_prefix_length_le original (List.prefix_append window rest) short
      · rcases List.prefix_or_prefix_of_prefix original (List.prefix_append window rest) with
          within | beyond
        · exact within
        · exact absurd (beyond.mem bracket) noOpeningV
    exact clean (List.infix_append_iff.mpr (.inr (.inr ⟨u, v, rfl, trail, inside⟩)))

def Crosses (s : List α) (pieces : List (List α)) : Prop :=
  ∃ before after u v, pieces = before ++ after ∧ u ≠ [] ∧ v ≠ [] ∧ s = u ++ v ∧
    u <:+ before.flatten ∧ v <+: after.flatten

theorem crosses_cons {s piece : List α} {pieces : List (List α)} (crosses : Crosses s pieces) :
    Crosses s (piece :: pieces) := by
  obtain ⟨before, after, u, v, rfl, someU, someV, parts, trail, lead⟩ := crosses
  exact ⟨piece :: before, after, u, v, rfl, someU, someV, parts,
    List.suffix_append_of_suffix trail, lead⟩

theorem crosses_iff {s : List α} {pieces : List (List α)} :
    Crosses s pieces ↔ ∃ i ∈ List.range (pieces.length + 1), ∃ k ∈ List.range s.length, 0 < k ∧
      s.take k <:+ (pieces.take i).flatten ∧ s.drop k <+: (pieces.drop i).flatten := by
  constructor
  · rintro ⟨before, after, u, v, rfl, someU, someV, rfl, trail, lead⟩
    have positive : 0 < v.length := List.length_pos_iff.mpr someV
    have splitBound : before.length < (before ++ after).length + 1 := by
      rw [List.length_append]
      omega
    have cutBound : u.length < (u ++ v).length := by
      rw [List.length_append]
      omega
    refine ⟨before.length, List.mem_range.mpr splitBound, u.length, List.mem_range.mpr cutBound,
      List.length_pos_iff.mpr someU, ?_, ?_⟩
    · simpa using trail
    · simpa using lead
  · rintro ⟨i, _, k, inside, positive, trail, lead⟩
    have bound := List.mem_range.mp inside
    refine ⟨pieces.take i, pieces.drop i, s.take k, s.drop k, (List.take_append_drop i _).symm,
      ?_, ?_, (List.take_append_drop k s).symm, trail, lead⟩
    · rw [← List.length_pos_iff, List.length_take]
      omega
    · rw [← List.length_pos_iff, List.length_drop]
      omega

instance [DecidableEq α] (s : List α) (pieces : List (List α)) : Decidable (Crosses s pieces) :=
  decidable_of_iff _ crosses_iff.symm

theorem crosses_pair {s left right : List α} : Crosses s [left, right] ↔
    ∃ u v, u ≠ [] ∧ v ≠ [] ∧ s = u ++ v ∧ u <:+ left ∧ v <+: right := by
  constructor
  · rintro ⟨before, after, u, v, split, someU, someV, parts, trail, lead⟩
    rcases before with - | ⟨first, - | ⟨next, before⟩⟩
    · exact absurd (List.suffix_nil.mp trail) someU
    · obtain ⟨rfl, rfl⟩ := List.cons.inj split
      exact ⟨u, v, someU, someV, parts, by simpa using trail, by simpa using lead⟩
    · obtain ⟨-, rest⟩ := List.cons.inj split
      obtain ⟨-, none⟩ := List.cons.inj rest
      obtain ⟨-, rfl⟩ := List.append_eq_nil_iff.mp none.symm
      exact absurd (List.prefix_nil.mp lead) someV
  · rintro ⟨u, v, someU, someV, parts, trail, lead⟩
    exact ⟨[left], [right], u, v, rfl, someU, someV, parts, by simpa using trail, by simpa using lead⟩

/-- A string without the opening bracket at the front of masked pieces is at the front of the
pieces themselves. -/
theorem leading_flatten {pieces masked : List (List α)}
    (conceal : List.Forall₂ (Conceals opening closing core) pieces masked) :
    ∀ v, opening ∉ v → v <+: masked.flatten → v <+: pieces.flatten := by
  induction conceal with
  | nil =>
    intro v _ lead
    exact lead
  | @cons piece shown pieces masked one _ ih =>
    intro v without lead
    rw [List.flatten_cons] at lead ⊢
    rcases List.prefix_or_prefix_of_prefix lead (List.prefix_append shown masked.flatten) with
      within | beyond
    · exact List.prefix_append_of_prefix (one.leading v without within)
    · obtain ⟨w, rfl⟩ := beyond
      have tail : opening ∉ w := fun bad => without (List.mem_append_right shown bad)
      have rest : w <+: masked.flatten := (List.prefix_append_right_inj shown).mp lead
      rcases one.touched with rfl | ⟨bad, _⟩
      · exact (List.prefix_append_right_inj shown).mpr (ih w tail rest)
      · exact absurd (List.mem_append_left w bad) without

/-- A string in the concatenation of the masked pieces is inside one of them, or lay across a cut
of the original. -/
theorem infix_or_crosses {s : List α} {pieces masked : List (List α)} (someS : s ≠ [])
    (noOpening : opening ∉ s) (noClosing : closing ∉ s)
    (conceal : List.Forall₂ (Conceals opening closing core) pieces masked)
    (found : s <:+: masked.flatten) : (∃ shown ∈ masked, s <:+: shown) ∨ Crosses s pieces := by
  induction conceal with
  | nil => exact absurd (List.infix_nil.mp found) someS
  | @cons piece shown pieces masked one others ih =>
    rw [List.flatten_cons] at found
    rcases List.infix_append_iff_ne_nil.mp found with
      inside | later | ⟨u, v, someU, someV, rfl, trail, lead⟩
    · exact .inl ⟨shown, List.mem_cons_self, inside⟩
    · rcases ih later with ⟨other, isPart, inside⟩ | crosses
      · exact .inl ⟨other, List.mem_cons_of_mem shown isPart, inside⟩
      · exact .inr (crosses_cons crosses)
    · have noClosingU : closing ∉ u := fun bad => noClosing (List.mem_append_left v bad)
      have noOpeningV : opening ∉ v := fun bad => noOpening (List.mem_append_right u bad)
      have ends : u <:+ piece := one.trailing u noClosingU trail
      have starts : v <+: pieces.flatten := leading_flatten others v noOpeningV lead
      exact .inr ⟨[piece], pieces, u, v, rfl, someU, someV, rfl, by simpa using ends, starts⟩

end Brackets

end Masking
