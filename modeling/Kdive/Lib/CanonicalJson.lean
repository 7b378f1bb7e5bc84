import Kdive.Lib.JsonText
import Mathlib.Data.Nat.Digits.Lemmas

/-!
Compact JSON with sorted keys. The text does not depend on the order in which an object was built,
and a list of texts is sorted by what comes before a closing mark that none of them contains.
-/
namespace CanonicalJson
open JsonText

section Writing

def utf8Char (c : Nat) : List Nat :=
  if c < 0x80 then [c]
  else if c < 0x800 then [0xC0 + c / 64, 0x80 + c % 64]
  else if c < 0x10000 then [0xE0 + c / 4096, 0x80 + c / 64 % 64, 0x80 + c % 64]
  else [0xF0 + c / 262144, 0x80 + c / 4096 % 64, 0x80 + c / 64 % 64, 0x80 + c % 64]

def utf8 (text : Str) : List Nat := text.flatMap utf8Char

/-- A character of `json.dumps(…, ensure_ascii=False)`: only quotes, backslashes and controls are
escaped. -/
def escapeWide (c : Nat) : Str := if c = 34 ∨ c = 92 ∨ c < 32 then escape c else [c]

def quotedWide (s : Str) : Str := [34] ++ s.flatMap escapeWide ++ [34]

def textLe : Str → Str → Bool
  | [], _ => true
  | _ :: _, [] => false
  | a :: as, b :: bs => decide (a < b) || (a == b && textLe as bs)

def sortTexts (texts : List Str) : List Str := texts.insertionSort (fun a b => textLe a b = true)

def sortByKey (members : List (Str × Str)) : List (Str × Str) :=
  members.insertionSort (fun a b => textLe a.1 b.1 = true)

def membersText (quote : Str → Str) (members : List (Str × Str)) : Str :=
  [123] ++ [44].intercalate ((sortByKey members).map fun m => quote m.1 ++ [58] ++ m.2) ++ [125]

mutual

def canonical (quote : Str → Str) : Value → Str
  | .null => str "null"
  | .bool b => if b then str "true" else str "false"
  | .int n => intText n
  | .float literal => literal
  | .text s => quote s
  | .array elements => [91] ++ [44].intercalate (canonicalElements quote elements) ++ [93]
  | .object members => membersText quote (canonicalMembers quote members)

def canonicalElements (quote : Str → Str) : List Value → List Str
  | [] => []
  | v :: rest => canonical quote v :: canonicalElements quote rest

def canonicalMembers (quote : Str → Str) : List (Str × Value) → List (Str × Str)
  | [] => []
  | (name, v) :: rest => (name, canonical quote v) :: canonicalMembers quote rest

end

end Writing

section Order

theorem canonicalElements_eq (quote : Str → Str) (elements : List Value) :
    canonicalElements quote elements = elements.map (canonical quote) := by
  induction elements with
  | nil => simp [canonicalElements]
  | cons v rest ih => simp [canonicalElements, ih]

theorem canonicalMembers_eq (quote : Str → Str) (members : List (Str × Value)) :
    canonicalMembers quote members = members.map fun m => (m.1, canonical quote m.2) := by
  induction members with
  | nil => simp [canonicalMembers]
  | cons m rest ih => simp [canonicalMembers, ih]

theorem textLe_cons (c d : Nat) (a b : Str) :
    textLe (c :: a) (d :: b) = true ↔ c < d ∨ (c = d ∧ textLe a b = true) := by
  simp [textLe]

@[simp] theorem textLe_self (a : Str) : textLe a a = true := by
  induction a with
  | nil => rfl
  | cons c a ih => exact (textLe_cons c c a a).mpr (Or.inr ⟨rfl, ih⟩)

theorem textLe_trans : ∀ {a b c : Str}, textLe a b = true → textLe b c = true →
    textLe a c = true := by
  intro a
  induction a with
  | nil => simp [textLe]
  | cons x a ih =>
    intro b c first second
    cases b with
    | nil => simp [textLe] at first
    | cons y b =>
      cases c with
      | nil => simp [textLe] at second
      | cons z c =>
        rw [textLe_cons] at *
        rcases first with below | ⟨rfl, first⟩
        · rcases second with below' | ⟨rfl, -⟩
          · exact Or.inl (Nat.lt_trans below below')
          · exact Or.inl below
        · exact second.imp_right (fun rest => ⟨rest.1, ih first rest.2⟩)

theorem textLe_total : ∀ a b : Str, textLe a b = true ∨ textLe b a = true := by
  intro a
  induction a with
  | nil => simp [textLe]
  | cons x a ih =>
    intro b
    cases b with
    | nil => simp [textLe]
    | cons y b =>
      rw [textLe_cons, textLe_cons]
      rcases Nat.lt_trichotomy x y with below | rfl | above
      · exact Or.inl (Or.inl below)
      · exact (ih b).imp (fun le => Or.inr ⟨rfl, le⟩) (fun le => Or.inr ⟨rfl, le⟩)
      · exact Or.inr (Or.inl above)

theorem textLe_antisymm : ∀ {a b : Str}, textLe a b = true → textLe b a = true → a = b := by
  intro a
  induction a with
  | nil =>
    intro b _ above
    cases b with
    | nil => rfl
    | cons y b => simp [textLe] at above
  | cons x a ih =>
    intro b below above
    cases b with
    | nil => simp [textLe] at below
    | cons y b =>
      rw [textLe_cons] at below above
      rcases below with less | ⟨rfl, le⟩
      · rcases above with less' | ⟨rfl, -⟩ <;> omega
      · rcases above with less' | ⟨-, le'⟩
        · omega
        · rw [ih le le']

theorem pairwise_insertionSort_by {α : Type} (key : α → Str) (items : List α) :
    (items.insertionSort (fun a b => textLe (key a) (key b) = true)).Pairwise
      (fun a b => textLe (key a) (key b) = true) := by
  have total : Std.Total (fun a b : α => textLe (key a) (key b) = true) :=
    ⟨fun a b => textLe_total (key a) (key b)⟩
  have trans : IsTrans α (fun a b : α => textLe (key a) (key b) = true) :=
    ⟨fun _ _ _ first second => textLe_trans first second⟩
  exact List.pairwise_insertionSort _ items

theorem sortByKey_perm {left right : List (Str × Str)} (same : left.Perm right)
    (distinct : (left.map Prod.fst).Nodup) : sortByKey left = sortByKey right := by
  have sorted := fun members : List (Str × Str) =>
    pairwise_insertionSort_by (fun m : Str × Str => m.1) members
  have inside := fun members : List (Str × Str) =>
    List.perm_insertionSort (fun a b : Str × Str => textLe a.1 b.1 = true) members
  have perm : (sortByKey left).Perm (sortByKey right) :=
    (inside left).trans (same.trans (inside right).symm)
  apply List.Perm.eq_of_pairwise _ (sorted left) (sorted right) perm
  intro a b memA memB below above
  have inLeft : a ∈ left := (inside left).mem_iff.mp memA
  have inLeft' : b ∈ left := (inside left).mem_iff.mp (perm.mem_iff.mpr memB)
  exact List.inj_on_of_nodup_map distinct inLeft inLeft' (textLe_antisymm below above)

theorem canonical_object_perm (quote : Str → Str) {left right : List (Str × Value)}
    (same : left.Perm right) (distinct : (left.map Prod.fst).Nodup) :
    canonical quote (.object left) = canonical quote (.object right) := by
  simp only [canonical, membersText, canonicalMembers_eq]
  rw [sortByKey_perm (same.map _) (by simpa [Function.comp_def] using distinct)]

theorem textLe_mark {mark : Nat} {tail : Str} : ∀ {a b : Str}, mark ∉ a → mark ∉ b →
    textLe (a ++ [mark]) (b ++ [mark]) = true →
    textLe (a ++ mark :: tail) (b ++ mark :: tail) = true := by
  intro a
  induction a with
  | nil =>
    intro b _ absent le
    cases b with
    | nil => exact textLe_self _
    | cons d b =>
      have other : mark ≠ d := fun same => absent (by simp [same])
      simp only [List.nil_append, List.cons_append, textLe_cons] at le ⊢
      exact Or.inl (le.resolve_right (fun both => other both.1))
  | cons c a ih =>
    intro b absentA absentB le
    cases b with
    | nil =>
      have other : c ≠ mark := fun same => absentA (by simp [same])
      simp only [List.nil_append, List.cons_append, textLe_cons] at le ⊢
      exact Or.inl (le.resolve_right (fun both => other both.1))
    | cons d b =>
      simp only [List.cons_append, textLe_cons] at le ⊢
      refine le.imp_right (fun both => ⟨both.1, ?_⟩)
      exact ih (fun h => absentA (List.mem_cons_of_mem _ h))
        (fun h => absentB (List.mem_cons_of_mem _ h)) both.2

theorem textLe_append_left (front : Str) {a b : Str} (le : textLe a b = true) :
    textLe (front ++ a) (front ++ b) = true := by
  induction front with
  | nil => exact le
  | cons c front ih => exact (textLe_cons _ _ _ _).mpr (Or.inr ⟨rfl, ih⟩)

end Order

section Length

theorem utf8_append (a b : Str) : utf8 (a ++ b) = utf8 a ++ utf8 b := List.flatMap_append

theorem utf8_ascii {text : Str} (ascii : ∀ c ∈ text, c < 128) : utf8 text = text := by
  induction text with
  | nil => rfl
  | cons c rest ih =>
    have first : c < 128 := ascii c (by simp)
    have tail := ih (fun d mem => ascii d (List.mem_cons_of_mem _ mem))
    simp only [utf8, List.flatMap_cons] at tail ⊢
    rw [tail]
    simp [utf8Char, show c < 0x80 from first]

theorem length_escape_ascii {c : Nat} (controls : c = 34 ∨ c = 92 ∨ c < 32) :
    (utf8 (escape c)).length ≤ 6 := by
  have small : ∀ n, hexDigit (n % 16) < 128 := by
    intro n
    unfold hexDigit
    split_ifs <;> omega
  have ascii : ∀ d ∈ escape c, d < 128 := by
    intro d mem
    unfold escape hex4 at mem
    split_ifs at mem <;> simp at mem <;> grind
  rw [utf8_ascii ascii]
  unfold escape hex4
  split_ifs <;> simp
  omega

theorem length_utf8_quotedWide (s : Str) : (utf8 (quotedWide s)).length ≤ 6 * s.length + 2 := by
  have one : ∀ c, (utf8 (escapeWide c)).length ≤ 6 := by
    intro c
    unfold escapeWide
    split_ifs with controls
    · exact length_escape_ascii controls
    · have bytes : (utf8Char c).length ≤ 4 := by
        unfold utf8Char
        split_ifs <;> simp
      simp only [utf8, List.flatMap_cons, List.flatMap_nil, List.append_nil]
      omega
  have inside : (utf8 (s.flatMap escapeWide)).length ≤ 6 * s.length := by
    induction s with
    | nil => simp [utf8]
    | cons c rest ih =>
      rw [List.flatMap_cons, utf8_append, List.length_append, List.length_cons]
      have := one c
      omega
  rw [quotedWide, utf8_append, utf8_append, List.length_append, List.length_append]
  have mark : (utf8 [34]).length = 1 := rfl
  omega

theorem length_utf8_intercalate (items : List Str) :
    (utf8 ([44].intercalate items)).length ≤ (items.map (fun i => (utf8 i).length + 1)).sum := by
  induction items with
  | nil => simp [utf8]
  | cons i rest ih =>
    cases rest with
    | nil => simp
    | cons j rest =>
      rw [List.intercalate_cons_cons, utf8_append, utf8_append]
      have mark : (utf8 [44]).length = 1 := rfl
      simp only [List.map_cons, List.sum_cons, List.length_append] at ih ⊢
      omega

theorem length_utf8_membersText (quote : Str → Str) (members : List (Str × Str)) :
    (utf8 (membersText quote members)).length ≤
      (members.map (fun m => (utf8 (quote m.1)).length + (utf8 m.2).length + 2)).sum + 2 := by
  have sorted := length_utf8_intercalate
    ((sortByKey members).map fun m => quote m.1 ++ [58] ++ m.2)
  have colon : (utf8 [58]).length = 1 := rfl
  have opening : (utf8 [123]).length = 1 := rfl
  have closing : (utf8 [125]).length = 1 := rfl
  have same : (((sortByKey members).map fun m => quote m.1 ++ [58] ++ m.2).map
      (fun i => (utf8 i).length + 1)).sum =
      (members.map (fun m => (utf8 (quote m.1)).length + (utf8 m.2).length + 2)).sum := by
    rw [List.map_map, sortByKey, ((List.perm_insertionSort _ members).map _).sum_eq]
    congr 1
    apply List.map_congr_left
    intro m _
    simp only [Function.comp_apply, utf8_append, List.length_append]
    omega
  rw [membersText, utf8_append, utf8_append, List.length_append, List.length_append]
  omega

theorem length_utf8_array (quote : Str → Str) (elements : List Value) {most : Nat}
    (bounded : ∀ v ∈ elements, (utf8 (canonical quote v)).length ≤ most) :
    (utf8 (canonical quote (.array elements))).length ≤ elements.length * (most + 1) + 2 := by
  have joined := length_utf8_intercalate (elements.map (canonical quote))
  have opening : (utf8 [91]).length = 1 := rfl
  have closing : (utf8 [93]).length = 1 := rfl
  have total : ((elements.map (canonical quote)).map (fun i => (utf8 i).length + 1)).sum ≤
      elements.length * (most + 1) := by
    clear joined
    induction elements with
    | nil => simp
    | cons v rest ih =>
      have first := bounded v (by simp)
      have others := ih (fun w mem => bounded w (List.mem_cons_of_mem _ mem))
      simp only [List.map_cons, List.sum_cons, List.length_cons, Nat.succ_mul] at others ⊢
      omega
  rw [canonical, canonicalElements_eq, utf8_append, utf8_append, List.length_append,
    List.length_append]
  omega

theorem length_utf8_intText {n : Int} {width : Nat} (positive : 0 < n) (small : n < 10 ^ width) :
    (utf8 (intText n)).length ≤ width := by
  obtain ⟨m, rfl⟩ := Int.eq_ofNat_of_zero_le (Int.le_of_lt positive)
  have below : m < 10 ^ width := by exact_mod_cast small
  have nonzero : m ≠ 0 := by omega
  have digits : ((Nat.digits 10 m).reverse.map (48 + ·)).length ≤ width := by
    rw [List.length_map, List.length_reverse]
    exact (Nat.digits_length_le_iff (by omega) m).mpr below
  have ascii : ∀ c ∈ (Nat.digits 10 m).reverse.map (48 + ·), c < 128 := by
    intro c mem
    obtain ⟨d, inside, rfl⟩ := List.mem_map.mp mem
    have := Nat.digits_lt_base (by omega : 1 < 10) (List.mem_reverse.mp inside)
    omega
  simp only [intText, decimal, if_neg nonzero]
  rw [utf8_ascii ascii]
  exact digits

/-- A text without quotes, backslashes, controls or anything beyond ASCII is written as it is. -/
theorem flatMap_plain {escaped : Nat → Str} {s : Str} (plain : ∀ c ∈ s, escaped c = [c]) :
    s.flatMap escaped = s := by
  induction s with
  | nil => rfl
  | cons c rest ih =>
    rw [List.flatMap_cons, plain c (by simp), ih (fun d mem => plain d (List.mem_cons_of_mem _ mem))]
    rfl

end Length

end CanonicalJson
