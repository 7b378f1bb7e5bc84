import Mathlib.Data.List.Nodup
import Mathlib.Data.List.Perm.Subperm
import Mathlib.Algebra.Order.BigOperators.Group.List
import Mathlib.Algebra.Order.Group.Nat
import Mathlib.Algebra.GroupWithZero.Nat

/-!
Relational tables with a unique key. The uniqueness constraint is a field of the
table, so every statement below keeps it and no later proof has to restore it.
The order of the rows is the order of insertion; no query may rely on it.
-/
namespace Table

/-- The rows of one table, with the `UNIQUE` constraint on `key` that the schema declares. -/
structure Keyed (Row Key : Type) (key : Row → Key) where
  rows : List Row
  distinct : (rows.map key).Nodup

section Operations

variable {Row Key : Type} {key : Row → Key} [DecidableEq Key]

def empty : Keyed Row Key key := ⟨[], List.nodup_nil⟩

def find (t : Keyed Row Key key) (k : Key) : Option Row :=
  t.rows.find? (fun r => key r = k)

/-- `INSERT … ON CONFLICT (key) DO NOTHING`. -/
def insert (t : Keyed Row Key key) (r : Row) : Keyed Row Key key :=
  if taken : key r ∈ t.rows.map key then t
  else ⟨t.rows ++ [r], by
    rw [List.map_append, List.nodup_append]
    refine ⟨t.distinct, by simp, ?_⟩
    intro a held b new same
    simp only [List.map_cons, List.map_nil, List.mem_singleton] at new
    subst same new
    exact taken held⟩

/-- `UPDATE … SET f WHERE p`, for a `SET` list that leaves the key alone. -/
def update (t : Keyed Row Key key) (p : Row → Bool) (f : Row → Row)
    (keeps : ∀ r, key (f r) = key r) : Keyed Row Key key :=
  ⟨t.rows.map (fun r => if p r then f r else r), by
    have same : key ∘ (fun r => if p r then f r else r) = key := by
      funext r
      by_cases hit : p r <;> simp [hit, keeps]
    rw [List.map_map, same]
    exact t.distinct⟩

def delete (t : Keyed Row Key key) (p : Row → Bool) : Keyed Row Key key :=
  ⟨t.rows.filter (fun r => !p r), t.distinct.sublist (List.filter_sublist.map key)⟩

end Operations

section Rows

variable {Row Key : Type} {key : Row → Key}

@[ext] theorem Keyed.ext {t u : Keyed Row Key key} (same : t.rows = u.rows) : t = u := by
  cases t
  cases u
  simp only at same
  subst same
  rfl

instance [DecidableEq Row] : DecidableEq (Keyed Row Key key) := fun t u =>
  decidable_of_iff (t.rows = u.rows) ⟨Keyed.ext, fun h => h ▸ rfl⟩

theorem row_unique {t : Keyed Row Key key} {r s : Row} (left : r ∈ t.rows) (right : s ∈ t.rows)
    (same : key r = key s) : r = s :=
  List.inj_on_of_nodup_map t.distinct left right same

theorem mem_update {t : Keyed Row Key key} {p : Row → Bool} {f : Row → Row}
    {keeps : ∀ r, key (f r) = key r} {r : Row} :
    r ∈ (update t p f keeps).rows ↔ ∃ old ∈ t.rows, (if p old then f old else old) = r := by
  simp [update]

@[simp] theorem mem_delete {t : Keyed Row Key key} {p : Row → Bool} {r : Row} :
    r ∈ (delete t p).rows ↔ r ∈ t.rows ∧ p r = false := by
  simp [delete]

end Rows

section Queries

variable {Row Key : Type} {key : Row → Key} [DecidableEq Key]

@[simp] theorem find_empty (k : Key) : find (empty : Keyed Row Key key) k = none := rfl

theorem find_mem {t : Keyed Row Key key} {k : Key} {r : Row} (found : find t k = some r) :
    r ∈ t.rows :=
  List.mem_of_find?_eq_some found

theorem find_key {t : Keyed Row Key key} {k : Key} {r : Row} (found : find t k = some r) :
    key r = k := by
  have holds := List.find?_some found
  simpa using holds

theorem find_of_mem {t : Keyed Row Key key} {r : Row} (member : r ∈ t.rows) :
    find t (key r) = some r := by
  cases found : find t (key r) with
  | none =>
    have absent := List.find?_eq_none.mp found r member
    simp at absent
  | some s => rw [row_unique (find_mem found) member (find_key found)]

theorem find_eq_some_iff {t : Keyed Row Key key} {k : Key} {r : Row} :
    find t k = some r ↔ r ∈ t.rows ∧ key r = k := by
  constructor
  · intro found
    exact ⟨find_mem found, find_key found⟩
  · rintro ⟨member, rfl⟩
    exact find_of_mem member

theorem find_eq_none_iff {t : Keyed Row Key key} {k : Key} :
    find t k = none ↔ ∀ r ∈ t.rows, key r ≠ k := by
  simp [find]

@[simp] theorem find_update (t : Keyed Row Key key) (p : Row → Bool) (f : Row → Row)
    (keeps : ∀ r, key (f r) = key r) (k : Key) :
    find (update t p f keeps) k = (find t k).map (fun r => if p r then f r else r) := by
  have same : ∀ r, key (if p r then f r else r) = key r := by
    intro r
    by_cases hit : p r <;> simp [hit, keeps]
  simp only [find, update, List.find?_map]
  congr 2
  funext r
  simp [same r]

theorem mem_insert {t : Keyed Row Key key} {r s : Row} (member : s ∈ (insert t r).rows) :
    s ∈ t.rows ∨ (s = r ∧ find t (key r) = none) := by
  unfold insert at member
  split at member
  · exact .inl member
  · rename_i fresh
    rcases List.mem_append.mp member with old | new
    · exact .inl old
    · refine .inr ⟨by simpa using new, ?_⟩
      rw [find_eq_none_iff]
      intro other held same
      exact fresh (same ▸ List.mem_map_of_mem held)

theorem insert_fresh {t : Keyed Row Key key} {r : Row} (fresh : find t (key r) = none) :
    (insert t r).rows = t.rows ++ [r] := by
  have untaken : key r ∉ t.rows.map key := by
    intro taken
    obtain ⟨other, held, same⟩ := List.mem_map.mp taken
    exact find_eq_none_iff.mp fresh other held same
  simp [insert, untaken]

theorem insert_taken {t : Keyed Row Key key} {r s : Row} (taken : find t (key r) = some s) :
    insert t r = t := by
  have present : key r ∈ t.rows.map key :=
    List.mem_map.mpr ⟨s, find_mem taken, find_key taken⟩
  simp [insert, present]

theorem find_insert_other {t : Keyed Row Key key} {r : Row} {k : Key} (other : key r ≠ k) :
    find (insert t r) k = find t k := by
  unfold insert
  split
  · rfl
  · simp [find, List.find?_append, other]

theorem find_insert_self {t : Keyed Row Key key} {r : Row} (fresh : find t (key r) = none) :
    find (insert t r) (key r) = some r := by
  rw [find, insert_fresh fresh, List.find?_append]
  have absent : t.rows.find? (fun s => key s = key r) = none := fresh
  simp [absent]

theorem find_delete {t : Keyed Row Key key} {p : Row → Bool} {k : Key} :
    find (delete t p) k = (find t k).filter (fun r => !p r) := by
  cases found : find t k with
  | none =>
    rw [Option.filter_none, find_eq_none_iff]
    intro r member
    exact find_eq_none_iff.mp found r (mem_delete.mp member).1
  | some s =>
    cases hit : p s with
    | true =>
      simp only [Option.filter, hit, Bool.not_true, Bool.false_eq_true, if_false]
      rw [find_eq_none_iff]
      intro r member same
      obtain ⟨held, kept⟩ := mem_delete.mp member
      have equal := row_unique held (find_mem found) (same.trans (find_key found).symm)
      rw [equal, hit] at kept
      exact absurd kept (by simp)
    | false =>
      simp only [Option.filter, hit, Bool.not_false, if_true]
      exact find_eq_some_iff.mpr ⟨mem_delete.mpr ⟨find_mem found, hit⟩, find_key found⟩

end Queries

section Aggregates

variable {Row Key : Type} {key : Row → Key} {t u : Keyed Row Key key} {p q : Row → Bool}
  {w : Row → Nat}

theorem rows_nodup (t : Keyed Row Key key) : t.rows.Nodup := t.distinct.of_map

theorem weigh_le (covers : ∀ r ∈ t.rows, p r = true →
      ∃ r' ∈ u.rows, q r' = true ∧ key r' = key r ∧ w r' = w r) :
    (t.rows.filter p).length ≤ (u.rows.filter q).length ∧
      ((t.rows.filter p).map w).sum ≤ ((u.rows.filter q).map w).sum := by
  have distinct : ((t.rows.filter p).map (fun r => (key r, w r))).Nodup := by
    apply List.Nodup.of_map Prod.fst
    rw [List.map_map]
    exact t.distinct.sublist (List.filter_sublist.map key)
  have inside : (t.rows.filter p).map (fun r => (key r, w r)) ⊆
      (u.rows.filter q).map (fun r => (key r, w r)) := by
    intro pair member
    obtain ⟨r, here, rfl⟩ := List.mem_map.mp member
    obtain ⟨held, selected⟩ := List.mem_filter.mp here
    obtain ⟨r', held', selected', sameKey, sameWeight⟩ := covers r held selected
    exact List.mem_map.mpr ⟨r', List.mem_filter.mpr ⟨held', selected'⟩, by rw [sameKey, sameWeight]⟩
  obtain ⟨l, perm, sublist⟩ := distinct.subperm inside
  constructor
  · have shorter := sublist.length_le
    rwa [perm.length_eq, List.length_map, List.length_map] at shorter
  · have lighter : (l.map Prod.snd).sum ≤ (((u.rows.filter q).map (fun r => (key r, w r))).map
        Prod.snd).sum := (sublist.map Prod.snd).sum_le_sum (fun _ _ => Nat.zero_le _)
    rw [(perm.map Prod.snd).sum_eq, List.map_map, List.map_map] at lighter
    exact lighter

variable [DecidableEq Key]

theorem weigh_split {r : Row} (member : r ∈ t.rows) (selected : p r = true) :
    (t.rows.filter p).length = (t.rows.filter (fun x => p x && key x != key r)).length + 1 ∧
      ((t.rows.filter p).map w).sum =
        ((t.rows.filter (fun x => p x && key x != key r)).map w).sum + w r := by
  have perm : (t.rows.filter p).Perm
      (r :: t.rows.filter (fun x => p x && key x != key r)) := by
    rw [List.perm_ext_iff_of_nodup]
    · intro x
      simp only [List.mem_filter, List.mem_cons, Bool.and_eq_true, bne_iff_ne, ne_eq]
      constructor
      · rintro ⟨held, chosen⟩
        by_cases same : key x = key r
        · exact .inl (row_unique held member same)
        · exact .inr ⟨held, chosen, same⟩
      · rintro (rfl | ⟨held, chosen, _⟩)
        · exact ⟨member, selected⟩
        · exact ⟨held, chosen⟩
    · exact (rows_nodup t).filter _
    · refine List.nodup_cons.mpr ⟨?_, (rows_nodup t).filter _⟩
      simp
  refine ⟨perm.length_eq, ?_⟩
  rw [(perm.map w).sum_eq, List.map_cons, List.sum_cons, Nat.add_comm]

theorem weigh_le_add {k : Key} {n : Nat} (weighs : ∀ r ∈ t.rows, key r = k → w r = n) :
    (t.rows.filter p).length ≤ (t.rows.filter (fun x => p x && key x != k)).length + 1 ∧
      ((t.rows.filter p).map w).sum ≤
        ((t.rows.filter (fun x => p x && key x != k)).map w).sum + n := by
  by_cases there : ∃ r ∈ t.rows, p r = true ∧ key r = k
  · obtain ⟨r, member, selected, rfl⟩ := there
    obtain ⟨count, sum⟩ := @weigh_split _ _ _ _ p w _ r member selected
    rw [count, sum, weighs r member rfl]
    exact ⟨Nat.le_refl _, Nat.le_refl _⟩
  · have covered := @weigh_le _ _ _ t t p (fun x => p x && key x != k) w (by
      intro r member selected
      refine ⟨r, member, ?_, rfl, rfl⟩
      simp only [selected, Bool.true_and, bne_iff_ne, ne_eq]
      exact fun same => there ⟨r, member, selected, same⟩)
    omega

end Aggregates

end Table
