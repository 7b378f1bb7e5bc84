import Mathlib.Data.List.Pairwise

/-!
Keys that are given names one after the other while no two of them may ever share one. A key that is
not there is passed over, and a name that another key holds cannot be given.
-/
namespace Renaming

variable {Key Name : Type*} [DecidableEq Key] [DecidableEq Name]

def Taken (keys : List Key) (f : Key → Option Name) (k : Key) (n : Name) : Prop :=
  ∃ q ∈ keys, q ≠ k ∧ f q = some n

instance (keys : List Key) (f : Key → Option Name) (k : Key) (n : Name) :
    Decidable (Taken keys f k n) :=
  inferInstanceAs (Decidable (∃ q ∈ keys, q ≠ k ∧ f q = some n))

def assign (keys : List Key) (f : Key → Option Name) (a : Key × Name) :
    Option (Key → Option Name) :=
  if a.1 ∉ keys then some f
  else if Taken keys f a.1 a.2 then none
  else some (Function.update f a.1 (some a.2))

def run (keys : List Key) : (Key → Option Name) → List (Key × Name) → Option (Key → Option Name)
  | f, [] => some f
  | f, a :: rest => (assign keys f a).bind (fun f => run keys f rest)

/-- Every name that another key holds at first is given up before it is given: that key is named
earlier. -/
def Freed (keys : List Key) (f : Key → Option Name) : List Key → List (Key × Name) → Prop
  | _, [] => True
  | earlier, a :: rest =>
    (a.1 ∈ keys → ∀ q ∈ keys, q ≠ a.1 → f q = some a.2 → q ∈ earlier) ∧
      Freed keys f (a.1 :: earlier) rest

instance decidableFreed (keys : List Key) (f : Key → Option Name) :
    ∀ (earlier : List Key) (as : List (Key × Name)), Decidable (Freed keys f earlier as)
  | _, [] => isTrue trivial
  | earlier, a :: rest => @instDecidableAnd _ _ _ (decidableFreed keys f (a.1 :: earlier) rest)

variable {keys : List Key} {f g : Key → Option Name} {a : Key × Name} {as : List (Key × Name)}

theorem assign_absent (absent : a.1 ∉ keys) : assign keys f a = some f := if_pos absent

theorem assign_taken (present : a.1 ∈ keys) (taken : Taken keys f a.1 a.2) :
    assign keys f a = none := by
  rw [assign, if_neg (not_not.mpr present), if_pos taken]

theorem assign_free (present : a.1 ∈ keys) (free : ¬ Taken keys f a.1 a.2) :
    assign keys f a = some (Function.update f a.1 (some a.2)) := by
  rw [assign, if_neg (not_not.mpr present), if_neg free]

theorem run_cons : run keys f (a :: as) = (assign keys f a).bind (fun f => run keys f as) := rfl

/-- What the keys named earlier hold now does not matter: they hold names that are not given again. -/
theorem run_isSome_iff_freed {earlier : List Key} {g : Key → Option Name}
    (names : (as.map Prod.snd).Nodup) (same : ∀ q ∈ keys, q ∉ earlier → g q = f q)
    (others : ∀ q ∈ keys, q ∈ earlier → ∀ n ∈ as.map Prod.snd, g q ≠ some n) :
    (run keys g as).isSome ↔ Freed keys f earlier as := by
  induction as generalizing g earlier with
  | nil => simp [run, Freed]
  | cons a rest ih =>
    rw [List.map_cons, List.nodup_cons] at names
    -- the head can be given exactly when everyone else who holds its name was renamed
    have head (present : a.1 ∈ keys) : ¬ Taken keys g a.1 a.2 ↔
        ∀ q ∈ keys, q ≠ a.1 → f q = some a.2 → q ∈ earlier := by
      constructor
      · intro free q member other holds
        by_contra late
        exact free ⟨q, member, other, (same q member late).trans holds⟩
      · rintro freed ⟨q, member, other, holds⟩
        by_cases early : q ∈ earlier
        · exact others q member early a.2 (by simp) holds
        · exact early (freed q member other ((same q member early).symm.trans holds))
    rw [run_cons, Freed]
    by_cases present : a.1 ∈ keys
    · by_cases taken : Taken keys g a.1 a.2
      · have held : ¬ ∀ q ∈ keys, q ≠ a.1 → f q = some a.2 → q ∈ earlier :=
          fun freed => (head present).mpr freed taken
        simp [assign_taken present taken, present, held]
      · have freed := (head present).mp taken
        rw [assign_free present taken, Option.bind_some, ih names.2]
        · exact ⟨fun later => ⟨fun _ => freed, later⟩, fun both => both.2⟩
        · intro q member late
          rw [List.mem_cons, not_or] at late
          rw [Function.update_of_ne late.1]
          exact same q member late.2
        · intro q member early n given
          by_cases own : q = a.1
          · rw [own, Function.update_self]
            intro same
            exact names.1 (Option.some.inj same ▸ given)
          · rw [Function.update_of_ne own]
            exact others q member ((List.mem_cons.mp early).resolve_left own) n (by simp [given])
    · rw [assign_absent present, Option.bind_some, ih names.2]
      · exact ⟨fun later => ⟨fun there => absurd there present, later⟩, fun both => both.2⟩
      · intro q member late
        exact same q member (fun early => late (List.mem_cons_of_mem _ early))
      · intro q member early n given
        refine others q member ((List.mem_cons.mp early).resolve_left ?_) n (by simp [given])
        intro own
        exact present (own ▸ member)

/-- Keys without a name can be named exactly when the names are new and differ. -/
theorem run_isSome_iff_fresh (distinct : (as.map Prod.fst).Nodup) (there : ∀ a ∈ as, a.1 ∈ keys)
    (unnamed : ∀ a ∈ as, f a.1 = none) :
    (run keys f as).isSome ↔
      (as.map Prod.snd).Nodup ∧ ∀ a ∈ as, ∀ q ∈ keys, f q ≠ some a.2 := by
  induction as generalizing f with
  | nil => simp [run]
  | cons a rest ih =>
    rw [List.map_cons, List.nodup_cons] at distinct
    have present := there a (.head rest)
    have bare := unnamed a (.head rest)
    have apart : ∀ b ∈ rest, b.1 ≠ a.1 := by
      intro b member same
      exact distinct.1 (same ▸ List.mem_map_of_mem member)
    rw [run_cons]
    by_cases taken : Taken keys f a.1 a.2
    · obtain ⟨q, member, -, holds⟩ := id taken
      have held : ¬ ∀ b ∈ a :: rest, ∀ q ∈ keys, f q ≠ some b.2 :=
        fun free => free a (.head rest) q member holds
      rw [assign_taken present taken, Option.bind_none]
      exact ⟨nofun, fun free => absurd free.2 held⟩
    · have free : ∀ q ∈ keys, f q ≠ some a.2 := by
        intro q member holds
        by_cases own : q = a.1
        · rw [own, bare] at holds
          cases holds
        · exact taken ⟨q, member, own, holds⟩
      rw [assign_free present taken, Option.bind_some, ih distinct.2
        (fun b member => there b (.tail a member)) ?_]
      · rw [List.map_cons, List.nodup_cons]
        constructor
        · rintro ⟨names, new⟩
          have fresh : a.2 ∉ rest.map Prod.snd := by
            intro given
            obtain ⟨b, member, same⟩ := List.mem_map.mp given
            refine new b member a.1 present ?_
            rw [Function.update_self, same]
          refine ⟨⟨fresh, names⟩, ?_⟩
          intro b member q held
          rcases List.mem_cons.mp member with rfl | member
          · exact free q held
          · by_cases own : q = a.1
            · rw [own, bare]
              exact nofun
            · have := new b member q held
              rwa [Function.update_of_ne own] at this
        · rintro ⟨⟨fresh, names⟩, new⟩
          refine ⟨names, ?_⟩
          intro b member q held
          by_cases own : q = a.1
          · rw [own, Function.update_self]
            intro same
            exact fresh (Option.some.inj same ▸ List.mem_map_of_mem member)
          · rw [Function.update_of_ne own]
            exact new b (.tail a member) q held
      · intro b member
        rw [Function.update_of_ne (apart b member)]
        exact unnamed b (.tail a member)

theorem run_cons_eq_some (ran : run keys f (a :: as) = some g) :
    ∃ f', assign keys f a = some f' ∧ run keys f' as = some g := by
  rw [run_cons] at ran
  exact Option.bind_eq_some_iff.mp ran

theorem assign_other {k : Key} {f' : Key → Option Name} (done : assign keys f a = some f')
    (other : a.1 ∈ keys → k ≠ a.1) : f' k = f k := by
  rw [assign] at done
  split at done
  · obtain rfl := Option.some.inj done
    rfl
  rename_i present
  split at done
  · cases done
  · obtain rfl := Option.some.inj done
    exact Function.update_of_ne (other (not_not.mp present)) _ _

theorem run_other {k : Key} (ran : run keys f as = some g) (other : ∀ a ∈ as, a.1 ∈ keys → k ≠ a.1) :
    g k = f k := by
  induction as generalizing f with
  | nil =>
    obtain rfl := Option.some.inj ran
    rfl
  | cons a rest ih =>
    obtain ⟨f', one, ran⟩ := run_cons_eq_some ran
    rw [ih ran (fun b member => other b (.tail a member))]
    exact assign_other one (other a (.head rest))

theorem run_own (ran : run keys f as = some g)
    (once : as.Pairwise (fun a b => a.1 = b.1 → a.1 ∉ keys)) (member : a ∈ as)
    (present : a.1 ∈ keys) : g a.1 = some a.2 := by
  induction as generalizing f with
  | nil => exact absurd member List.not_mem_nil
  | cons b rest ih =>
    obtain ⟨f', one, later⟩ := run_cons_eq_some ran
    obtain ⟨first, once⟩ := List.pairwise_cons.mp once
    rcases List.mem_cons.mp member with rfl | member
    · have kept : g a.1 = f' a.1 := by
        refine run_other later ?_
        intro b member _ same
        exact first b member same present
      rw [kept]
      rw [assign, if_neg (not_not.mpr present)] at one
      split at one
      · cases one
      · obtain rfl := Option.some.inj one
        exact Function.update_self ..
    · exact ih later once member

end Renaming
