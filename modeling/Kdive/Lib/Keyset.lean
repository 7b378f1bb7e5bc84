import Mathlib.Data.List.Sort

/-!
Keyset paging: rows are listed in the order of a key, a page at a time, and a page goes on behind
the key of the last row of the page before it. Rows that share a key may come in any order, and in
another one for every page.
-/
namespace Keyset

variable {α κ : Type} [LinearOrder κ]

structure Arrangement (key : α → κ) where
  arrange : Option κ → List α → List α
  perm : ∀ after rows, (arrange after rows).Perm rows
  sorted : ∀ after rows, (arrange after rows).Pairwise (fun a b => key a ≤ key b)

def Arrangement.stable (key : α → κ) : Arrangement key where
  arrange _ rows := rows.insertionSort (fun a b => key a ≤ key b)
  perm _ rows := List.perm_insertionSort _ rows
  sorted _ rows := by
    have : Std.Total (fun a b : α => key a ≤ key b) := ⟨fun a b => le_total (key a) (key b)⟩
    have : IsTrans α (fun a b => key a ≤ key b) := ⟨fun _ _ _ => le_trans⟩
    exact List.pairwise_insertionSort _ rows

section Pages

variable (key : α → κ) (arrangement : Arrangement key) (rows : List α) (size : Nat)

def behind : Option κ → List α
  | none => rows
  | some k => rows.filter (fun row => decide (k < key row))

def fetch (after : Option κ) : List α :=
  (arrangement.arrange after (behind key rows after)).take (size + 1)

def walk : Nat → Option κ → Option (List α)
  | 0, _ => none
  | turns + 1, after =>
    let fetched := fetch key arrangement rows size after
    let kept := fetched.take size
    if size < fetched.length then
      match kept.getLast? with
      | some last => (walk turns (some (key last))).map (kept ++ ·)
      | none => some kept
    else some kept

def below (k : κ) : Nat := rows.countP (fun row => decide (key row < k))

def upTo (k : κ) : Nat := rows.countP (fun row => decide (key row ≤ k))

def Apart : Prop := ∀ k m, ¬ (below key rows k < m * size ∧ m * size < upTo key rows k)

end Pages

variable {key : α → κ} {arrangement : Arrangement key} {rows other : List α} {size : Nat}

theorem walk_last {after : Option κ} (turns : Nat)
    (whole : ¬ size < (fetch key arrangement rows size after).length) :
    walk key arrangement rows size (turns + 1) after =
      some ((fetch key arrangement rows size after).take size) := by
  simp only [walk, if_neg whole]

theorem walk_more {after : Option κ} {last : α} (turns : Nat)
    (more : size < (fetch key arrangement rows size after).length)
    (picked : ((fetch key arrangement rows size after).take size).getLast? = some last) :
    walk key arrangement rows size (turns + 1) after =
      (walk key arrangement rows size turns (some (key last))).map
        ((fetch key arrangement rows size after).take size ++ ·) := by
  simp only [walk, if_pos more, picked]

theorem exists_getLast?_take {after : Option κ} (positive : 0 < size)
    (more : size < (fetch key arrangement rows size after).length) :
    ∃ last, ((fetch key arrangement rows size after).take size).getLast? = some last := by
  have filled : (fetch key arrangement rows size after).take size ≠ [] := by
    rw [← List.length_pos_iff, List.length_take]
    omega
  exact ⟨_, List.getLast?_eq_some_getLast filled⟩

theorem Apart.of_perm (same : rows.Perm other) : Apart key rows size ↔ Apart key other size := by
  unfold Apart below upTo
  simp only [same.countP_eq]

theorem apart_of_length_le (small : rows.length ≤ size) : Apart key rows size := by
  rintro k m ⟨past, before⟩
  have bounded : upTo key rows k ≤ rows.length := List.countP_le_length
  have first : m = 0 := by
    by_contra positive
    have := Nat.le_mul_of_pos_left size (Nat.pos_of_ne_zero positive)
    omega
  subst first
  omega

section Cut

/-! A sorted listing that is cut behind a row. -/

variable {front back : List α} {last : α}

theorem upTo_front (sorted : (front ++ [last] ++ back).Pairwise (fun a b => key a ≤ key b)) :
    upTo key (front ++ [last]) (key last) = front.length + 1 := by
  have all : ∀ row ∈ front ++ [last], decide (key row ≤ key last) = true := by
    intro row inside
    rw [decide_eq_true_eq]
    rcases List.mem_append.1 inside with earlier | same
    · exact (List.pairwise_append.1 (List.pairwise_append.1 sorted).1).2.2 row earlier last
        List.mem_cons_self
    · rw [List.mem_singleton.1 same]
  rw [upTo, List.countP_eq_length.2 all]
  simp

theorem below_lt (sorted : (front ++ [last] ++ back).Pairwise (fun a b => key a ≤ key b)) :
    below key (front ++ [last] ++ back) (key last) < front.length + 1 := by
  have later : ∀ row ∈ back, ¬ decide (key row < key last) = true := by
    intro row inside
    rw [decide_eq_true_eq, not_lt]
    exact (List.pairwise_append.1 sorted).2.2 last (by simp) row inside
  have bounded : front.countP (fun row => decide (key row < key last)) ≤ front.length :=
    List.countP_le_length
  rw [below, List.countP_append, List.countP_append, List.countP_eq_zero.2 later]
  simp
  omega

theorem filter_cut (sorted : (front ++ [last] ++ back).Pairwise (fun a b => key a ≤ key b)) :
    (front ++ [last] ++ back).filter (fun row => decide (key last < key row)) =
      back.filter (fun row => decide (key last < key row)) := by
  rw [List.filter_append, List.filter_eq_nil_iff.2, List.nil_append]
  intro row inside
  rw [decide_eq_true_eq, not_lt]
  rcases List.mem_append.1 inside with earlier | same
  · exact (List.pairwise_append.1 (List.pairwise_append.1 sorted).1).2.2 row earlier last
      List.mem_cons_self
  · rw [List.mem_singleton.1 same]

theorem length_filter_cut
    (sorted : (front ++ [last] ++ back).Pairwise (fun a b => key a ≤ key b)) :
    (back.filter (fun row => decide (key last < key row))).length +
      upTo key (front ++ [last] ++ back) (key last) = (front ++ [last] ++ back).length := by
  have split := List.length_eq_countP_add_countP (l := back)
    (fun row => decide (key row ≤ key last))
  have opposite : back.countP (fun row => decide ¬decide (key row ≤ key last) = true) =
      (back.filter (fun row => decide (key last < key row))).length := by
    rw [List.countP_eq_length_filter]
    congr 1
    apply List.filter_congr
    intro row _
    simp only [decide_eq_true_eq, not_le]
  have here := upTo_front sorted
  unfold upTo at here ⊢
  rw [List.countP_append, here, List.length_append, List.length_append]
  simp only [List.length_singleton]
  omega

theorem apart_cut (sorted : (front ++ [last] ++ back).Pairwise (fun a b => key a ≤ key b))
    (later : ∀ row ∈ back, key last < key row) :
    Apart key (front ++ [last] ++ back) (front.length + 1) ↔
      Apart key back (front.length + 1) := by
  have counted : ∀ (j : κ), key last < j →
      below key (front ++ [last] ++ back) j = front.length + 1 + below key back j ∧
        upTo key (front ++ [last] ++ back) j = front.length + 1 + upTo key back j := by
    intro j behind
    have earlier : ∀ row ∈ front ++ [last], key row < j := by
      intro row inside
      have all := List.countP_eq_length.1 (show (front ++ [last]).countP
        (fun row => decide (key row ≤ key last)) = (front ++ [last]).length by
          have counted := upTo_front sorted
          unfold upTo at counted
          simpa using counted) row inside
      exact lt_of_le_of_lt (of_decide_eq_true all) behind
    constructor
    · rw [below, List.countP_append, List.countP_eq_length.2
        (fun row inside => decide_eq_true (earlier row inside))]
      simp [below]
    · rw [upTo, List.countP_append, List.countP_eq_length.2
        (fun row inside => decide_eq_true (le_of_lt (earlier row inside)))]
      simp [upTo]
  have upTo_last : upTo key (front ++ [last] ++ back) (key last) = front.length + 1 := by
    have none_later : back.countP (fun row => decide (key row ≤ key last)) = 0 := by
      rw [List.countP_eq_zero]
      intro row inside
      simpa using later row inside
    have here := upTo_front sorted
    unfold upTo at here ⊢
    rw [List.countP_append, here, none_later]
  constructor
  · rintro apart k m ⟨past, before⟩
    rcases lt_or_ge (key last) k with behind | ahead
    · obtain ⟨low, high⟩ := counted k behind
      refine apart k (m + 1) ⟨?_, ?_⟩
      · rw [low, Nat.add_mul]
        omega
      · rw [high, Nat.add_mul]
        omega
    · have empty : upTo key back k = 0 := by
        rw [upTo, List.countP_eq_zero]
        intro row inside
        rw [decide_eq_true_eq, not_le]
        exact lt_of_le_of_lt ahead (later row inside)
      omega
  · rintro apart k m ⟨past, before⟩
    rcases lt_or_ge (key last) k with behind | ahead
    · obtain ⟨low, high⟩ := counted k behind
      rw [low] at past
      rw [high] at before
      cases m with
      | zero => omega
      | succ m =>
        rw [Nat.add_mul] at past before
        exact apart k m ⟨by omega, by omega⟩
    · have smaller : upTo key (front ++ [last] ++ back) k ≤
          upTo key (front ++ [last] ++ back) (key last) := by
        apply List.countP_mono_left
        intro row _ least
        rw [decide_eq_true_eq] at least ⊢
        exact le_trans least ahead
      rw [upTo_last] at smaller
      cases m with
      | zero => omega
      | succ m =>
        rw [Nat.add_mul] at before
        omega

end Cut

/-- What a page holds of the rows: the whole of them, or the first of them up to a row. -/
theorem fetch_cases (positive : 0 < size) (after : Option κ) :
    ((behind key rows after).length ≤ size ∧
      ¬ size < (fetch key arrangement rows size after).length ∧
      ((fetch key arrangement rows size after).take size).Perm (behind key rows after)) ∨
    ∃ front last back, size < (fetch key arrangement rows size after).length ∧
      front.length + 1 = size ∧ (front ++ [last] ++ back).Perm (behind key rows after) ∧
      (front ++ [last] ++ back).Pairwise (fun a b => key a ≤ key b) ∧ back ≠ [] ∧
      (fetch key arrangement rows size after).take size = front ++ [last] := by
  have same := arrangement.perm after (behind key rows after)
  have sorted := arrangement.sorted after (behind key rows after)
  unfold fetch
  generalize arrangement.arrange after (behind key rows after) = listing at same sorted
  have taken : (listing.take (size + 1)).take size = listing.take size := by
    rw [List.take_take, Nat.min_eq_left (Nat.le_succ size)]
  rw [taken]
  rcases Nat.lt_or_ge size listing.length with long | short
  · right
    have length_front : (listing.take size).length = size := by simp; omega
    have filled : listing.take size ≠ [] := by
      intro empty
      simp [empty] at length_front
      omega
    refine ⟨(listing.take size).dropLast, (listing.take size).getLast filled, listing.drop size,
      ?_, ?_, ?_, ?_, ?_, ?_⟩
    · simp
      omega
    · rw [List.length_dropLast, length_front]
      omega
    · rw [List.dropLast_append_getLast, List.take_append_drop]
      exact same
    · rw [List.dropLast_append_getLast, List.take_append_drop]
      exact sorted
    · rw [Ne, List.drop_eq_nil_iff]
      omega
    · rw [List.dropLast_append_getLast]
  · left
    rw [List.take_of_length_le short]
    refine ⟨same.length_eq ▸ short, ?_, same⟩
    simp
    omega

theorem behind_cut {after : Option κ} {front back : List α} {last : α}
    (same : (front ++ [last] ++ back).Perm (behind key rows after))
    (sorted : (front ++ [last] ++ back).Pairwise (fun a b => key a ≤ key b)) :
    (behind key rows (some (key last))).Perm
      (back.filter (fun row => decide (key last < key row))) := by
  have inside : last ∈ behind key rows after := same.subset (by simp)
  have narrowed : behind key rows (some (key last)) =
      (behind key rows after).filter (fun row => decide (key last < key row)) := by
    cases after with
    | none => rfl
    | some k =>
      have past : k < key last := by
        simp only [behind, List.mem_filter, decide_eq_true_eq] at inside
        exact inside.2
      unfold behind
      rw [List.filter_filter]
      apply List.filter_congr
      intro row _
      rw [Bool.eq_iff_iff]
      simp only [decide_eq_true_eq, Bool.and_eq_true]
      exact ⟨fun later => ⟨later, lt_trans past later⟩, And.left⟩
  rw [narrowed, ← filter_cut sorted]
  exact (same.filter _).symm

/-- Following the pages to the end lists every row behind a key once exactly if no page ends inside
the rows of one key. It never lists more rows than there are. -/
theorem walk_lists (positive : 0 < size) : ∀ {turns : Nat} {after : Option κ},
    (behind key rows after).length < turns →
      ∃ listed, walk key arrangement rows size turns after = some listed ∧
        listed.length ≤ (behind key rows after).length ∧
        (listed.Perm (behind key rows after) ↔ Apart key (behind key rows after) size) := by
  intro turns
  induction turns with
  | zero =>
    intro after enough
    omega
  | succ turns ih =>
    intro after enough
    rcases fetch_cases positive after with ⟨small, whole, same⟩ |
      ⟨front, last, back, long, full, same, sorted, _, kept⟩
    · refine ⟨(fetch key arrangement rows size after).take size, ?_, same.length_eq.le, ?_⟩
      · exact walk_last turns whole
      · exact ⟨fun _ => apart_of_length_le small, fun _ => same⟩
    · have rest := behind_cut same sorted
      have left_out := length_filter_cut sorted
      have whole := same.length_eq
      have at_least : front.length + 1 ≤ upTo key (front ++ [last] ++ back) (key last) := by
        have counted := upTo_front sorted
        unfold upTo at counted ⊢
        rw [List.countP_append, counted]
        omega
      obtain ⟨others, run, fewer, iff⟩ := @ih (some (key last)) (by rw [rest.length_eq]; omega)
      refine ⟨front ++ [last] ++ others, ?_, ?_, ?_⟩
      · have picked : ((fetch key arrangement rows size after).take size).getLast? = some last := by
          simp [kept]
        rw [walk_more turns long picked, run, kept, Option.map_some]
      · rw [rest.length_eq] at fewer
        rw [List.length_append, List.length_append, List.length_singleton]
        omega
      · rcases Nat.eq_or_lt_of_le at_least with exact_cut | inside
        · -- the page ends where its last key ends
          have later : ∀ row ∈ back, key last < key row := by
            intro row inside
            have none_left : (back.filter (fun row => decide (key last < key row))).length =
                back.length := by
              rw [List.length_append, List.length_append, List.length_singleton] at left_out
              omega
            exact of_decide_eq_true (List.length_filter_eq_length_iff.1 none_left row inside)
          have all : back.filter (fun row => decide (key last < key row)) = back :=
            List.filter_eq_self.2 (fun row inside => decide_eq_true (later row inside))
          rw [all] at rest
          rw [← Apart.of_perm same, ← full, apart_cut sorted later, full, ← Apart.of_perm rest,
            ← iff]
          constructor
          · intro listed
            have cut := listed.trans same.symm
            rw [List.perm_append_left_iff] at cut
            exact cut.trans rest.symm
          · intro listed
            exact (List.Perm.append_left _ (listed.trans rest)).trans same
        · constructor
          · intro listed
            have := listed.length_eq
            rw [rest.length_eq] at fewer
            rw [List.length_append, List.length_append, List.length_singleton] at this
            omega
          · intro apart
            rw [← Apart.of_perm same] at apart
            have cut := apart (key last) 1
            rw [Nat.one_mul, ← full] at cut
            exact absurd ⟨below_lt sorted, inside⟩ cut

end Keyset
