import Kdive.Uploads.Reclaim
import Mathlib.Data.List.Dedup

/-!
No deleter removes a version that a writer put under a cover it still has or gave up by
registering, and no version of a key that had a row when the fence was evaluated. The capture comes
before the fence, so every captured version was put before it, and the version's writer was holding,
registered or lost at that moment.
-/
namespace Kdive.Uploads

structure Covered (s : State) : Prop where
  leased : ∀ {i w job}, s.writers[i]? = some w → s.phase i = .holding → w.cover = .lease job →
    (w.owner, job) ∈ s.leases
  sole : ∀ {i j w w' job}, s.writers[i]? = some w → s.phase i = .holding → w.cover = .lease job →
    s.writers[j]? = some w' → s.phase j = .holding → w'.cover = .lease job → w.owner = w'.owner → i = j
  windowed : ∀ {i w}, s.writers[i]? = some w → s.phase i = .holding → w.cover = .window →
    ∃ m, s.manifests w.owner = some m ∧ m.writer = i
  minted : ∀ {o m}, s.manifests o = some m → m.root = ownerRoot o ∧ s.phase m.writer = .holding ∧
    ∃ w, s.writers[m.writer]? = some w ∧ w.cover = .window ∧ w.owner = o
  rowed : ∀ {i w}, s.writers[i]? = some w → s.phase i = .registered →
    ∀ name ∈ w.names, ownerKey w.owner name ∈ s.rows
  lost : ∀ {i w}, s.writers[i]? = some w → s.phase i = .lost → w.cover = .window
  origin : ∀ {n : Nat} {v : Issued} {i}, s.issued[n]? = some v → v.writer = some i →
    ∃ w, s.writers[i]? = some w ∧ ∃ name ∈ w.names, v.key = ownerKey w.owner name

namespace Covered

variable {s s' : State} {owner : Owner}

theorem initial (now : Instant) : Covered (State.initial now) where
  leased found := by cases found
  sole found := by cases found
  windowed found := by cases found
  minted found := by cases found
  rowed found := by cases found
  lost found := by cases found
  origin found := by cases found

theorem frame (covered : Covered s) (writers : s'.writers = s.writers) (phase : s'.phase = s.phase)
    (leases : s'.leases = s.leases) (manifests : s'.manifests = s.manifests)
    (rows : s'.rows = s.rows) (issued : s'.issued = s.issued) : Covered s' := by
  obtain ⟨leased, sole, windowed, minted, rowed, lost, origin⟩ := covered
  constructor
  · simp only [writers, phase, leases]
    exact leased
  · simp only [writers, phase]
    exact sole
  · simp only [writers, phase, manifests]
    exact windowed
  · simp only [writers, phase, manifests]
    exact minted
  · simp only [writers, phase, rows]
    exact rowed
  · simp only [writers, phase]
    exact lost
  · simp only [writers, issued]
    exact origin

/-- A holding writer registers or loses its window; nobody else's cover goes with it. -/
theorem leave {i : Nat} {w : Writer} (covered : Covered s) (isWriter : s.writers[i]? = some w)
    (holding : s.phase i = .holding) (writers : s'.writers = s.writers)
    (issued : s'.issued = s.issued) (others : ∀ j, j ≠ i → s'.phase j = s.phase j)
    (left : s'.phase i ≠ .holding) (rows : s.rows ⊆ s'.rows)
    (leases : ∀ lease ∈ s.leases, (∀ job, w.cover = .lease job → lease ≠ (w.owner, job)) →
      lease ∈ s'.leases)
    (manifests : ∀ o, s'.manifests o =
      if w.cover = .window ∧ o = w.owner then none else s.manifests o)
    (named : s'.phase i = .registered → ∀ name ∈ w.names, ownerKey w.owner name ∈ s'.rows)
    (window : s'.phase i = .lost → w.cover = .window) : Covered s' := by
  have other {j : Nat} (stays : s'.phase j = .holding) : j ≠ i ∧ s.phase j = .holding := by
    by_cases same : j = i
    · exact absurd (same ▸ stays) left
    · exact ⟨same, (others j same) ▸ stays⟩
  constructor
  · intro j w' job found stays lease
    rw [writers] at found
    obtain ⟨different, held⟩ := other stays
    refine leases _ (covered.leased found held lease) ?_
    rintro job' own same
    obtain ⟨owners, rfl⟩ := Prod.mk.inj same
    exact different (covered.sole found held lease isWriter holding own owners)
  · intro j k w' w'' job found stays lease found' stays'
    rw [writers] at found found'
    exact covered.sole found (other stays).2 lease found' (other stays').2
  · intro j w' found stays isWindow
    rw [writers] at found
    obtain ⟨different, held⟩ := other stays
    obtain ⟨m, row, number⟩ := covered.windowed found held isWindow
    refine ⟨m, ?_, number⟩
    rw [manifests, if_neg]
    · exact row
    · rintro ⟨own, same⟩
      obtain ⟨m', row', number'⟩ := covered.windowed isWriter holding own
      rw [← same, row] at row'
      obtain rfl := Option.some.inj row'
      exact different (number.symm.trans number')
  · intro o m row
    rw [manifests] at row
    split at row
    · cases row
    · rename_i keeps
      obtain ⟨root, held, w', found, isWindow, own⟩ := covered.minted row
      have different : m.writer ≠ i := by
        rintro rfl
        obtain rfl := Option.some.inj (found.symm.trans isWriter)
        exact keeps ⟨isWindow, own.symm⟩
      rw [writers, others _ different]
      exact ⟨root, held, w', found, isWindow, own⟩
  · intro j w' found registered
    rw [writers] at found
    by_cases same : j = i
    · subst same
      obtain rfl := Option.some.inj (found.symm.trans isWriter)
      exact named registered
    · rw [others j same] at registered
      exact fun name isName => rows (covered.rowed found registered name isName)
  · intro j w' found lost
    rw [writers] at found
    by_cases same : j = i
    · subst same
      obtain rfl := Option.some.inj (found.symm.trans isWriter)
      exact window lost
    · rw [others j same] at lost
      exact covered.lost found lost
  · intro n v j put wrote
    rw [issued] at put
    rw [writers]
    exact covered.origin put wrote

theorem writer_cases {new w : Writer} {i : Nat} (found : (s.writers ++ [new])[i]? = some w) :
    (i = s.writers.length ∧ w = new) ∨ (s.writers[i]? = some w ∧ i ≠ s.writers.length) := by
  rcases Nat.lt_trichotomy i s.writers.length with old | rfl | beyond
  · rw [List.getElem?_append_left old] at found
    exact .inr ⟨found, Nat.ne_of_lt old⟩
  · rw [List.getElem?_concat_length] at found
    exact .inl ⟨rfl, (Option.some.inj found).symm⟩
  · rw [List.getElem?_eq_none (by rw [List.length_append, List.length_singleton]; omega)] at found
    cases found

theorem writer_old {new w : Writer} {i : Nat} (found : s.writers[i]? = some w) :
    (s.writers ++ [new])[i]? = some w := by
  rw [List.getElem?_append_left (List.getElem?_eq_some_iff.mp found).1]
  exact found

/-- A new writer covers an owner that has no window, or whose lease no other writer holds for the
same job. -/
theorem enter (new : Writer) {m : Manifest} (covered : Covered s)
    (writers : s'.writers = s.writers ++ [new]) (issued : s'.issued = s.issued)
    (rows : s'.rows = s.rows) (phase : s'.phase = Function.update s.phase s.writers.length .holding)
    (leases : s.leases ⊆ s'.leases)
    (leased : ∀ job, new.cover = .lease job → (new.owner, job) ∈ s'.leases)
    (free : ∀ i w job, s.writers[i]? = some w → s.phase i = .holding → w.cover = .lease job →
      new.cover = .lease job → w.owner ≠ new.owner)
    (vacant : new.cover = .window → s.manifests new.owner = none)
    (manifests : ∀ o, s'.manifests o =
      if new.cover = .window ∧ o = new.owner then some m else s.manifests o)
    (row : m.writer = s.writers.length ∧ m.root = ownerRoot new.owner) : Covered s' := by
  have newest : s'.phase s.writers.length = .holding := by rw [phase, Function.update_self]
  have older {j : Nat} (old : j ≠ s.writers.length) : s'.phase j = s.phase j := by
    rw [phase, Function.update_of_ne old]
  have mine : (s.writers ++ [new])[s.writers.length]? = some new := List.getElem?_concat_length
  constructor
  · intro i w job found holding lease
    rw [writers] at found
    rcases writer_cases found with ⟨_, rfl⟩ | ⟨old, number⟩
    · exact leased job lease
    · exact leases (covered.leased old (older number ▸ holding) lease)
  · intro i j w w' job found holding lease found' holding' lease' owners
    rw [writers] at found found'
    rcases writer_cases found with ⟨rfl, rfl⟩ | ⟨old, number⟩
    · rcases writer_cases found' with ⟨rfl, _⟩ | ⟨old', number'⟩
      · rfl
      · exact absurd owners.symm (free j w' job old' (older number' ▸ holding') lease' lease)
    · rcases writer_cases found' with ⟨rfl, rfl⟩ | ⟨old', number'⟩
      · exact absurd owners (free i w job old (older number ▸ holding) lease lease')
      · exact covered.sole old (older number ▸ holding) lease old' (older number' ▸ holding')
          lease' owners
  · intro i w found holding window
    rw [writers] at found
    rcases writer_cases found with ⟨rfl, rfl⟩ | ⟨old, number⟩
    · exact ⟨m, by rw [manifests, if_pos ⟨window, rfl⟩], row.1⟩
    · obtain ⟨m', row', number'⟩ := covered.windowed old (older number ▸ holding) window
      refine ⟨m', ?_, number'⟩
      rw [manifests, if_neg]
      · exact row'
      · rintro ⟨opens, same⟩
        rw [same, vacant opens] at row'
        cases row'
  · intro o m' row'
    rw [manifests] at row'
    split at row'
    · rename_i opens
      obtain rfl := Option.some.inj row'
      rw [writers, row.1, row.2, opens.2]
      exact ⟨rfl, newest, new, mine, opens.1, rfl⟩
    · obtain ⟨root, held, w, found, rest⟩ := covered.minted row'
      rw [writers, older (Nat.ne_of_lt (List.getElem?_eq_some_iff.mp found).1)]
      exact ⟨root, held, w, writer_old found, rest⟩
  · intro i w found registered
    rw [writers] at found
    rcases writer_cases found with ⟨rfl, rfl⟩ | ⟨old, number⟩
    · rw [newest] at registered
      cases registered
    · rw [rows]
      exact covered.rowed old (older number ▸ registered)
  · intro i w found lost
    rw [writers] at found
    rcases writer_cases found with ⟨rfl, rfl⟩ | ⟨old, number⟩
    · rw [newest] at lost
      cases lost
    · exact covered.lost old (older number ▸ lost)
  · intro n v i put wrote
    rw [issued] at put
    rw [writers]
    obtain ⟨w, found, rest⟩ := covered.origin put wrote
    exact ⟨w, writer_old found, rest⟩

theorem manifests_setManifest (s : State) (owner o : Owner) (m : Option Manifest) :
    (s.setManifest owner m).manifests o = if o = owner then m else s.manifests o :=
  Function.update_apply _ _ _ _

theorem vacate (covered : Covered s) (owner : Owner) :
    Covered ((s.loseWindow owner).setManifest owner none) := by
  rw [State.loseWindow]
  cases row : s.manifests owner with
  | none =>
    refine covered.frame rfl rfl rfl ?_ rfl rfl
    exact Function.update_eq_self_iff.mpr row.symm
  | some m =>
    obtain ⟨_, holding, w, isWriter, window, rfl⟩ := covered.minted row
    have lost : ((s.setPhase m.writer .lost).setManifest w.owner none).phase m.writer = .lost :=
      Function.update_self _ _ _
    refine covered.leave isWriter holding rfl rfl ?_ ?_ (List.Subset.refl _) ?_ ?_ ?_ ?_
    · intro j other
      exact Function.update_of_ne other _ _
    · rw [lost]
      decide
    · intro lease isLease _
      exact isLease
    · intro o
      rw [manifests_setManifest]
      simp only [window, true_and]
      rfl
    · rw [lost]
      intro registered
      cases registered
    · intro _
      exact window

theorem mint (covered : Covered s) (owner : Owner) (names : List String) (ttl : Duration) :
    Covered (s.mint owner names ttl) := by
  have vacated := covered.vacate owner
  have writers : (s.loseWindow owner).writers = s.writers := by
    rw [State.loseWindow]
    split <;> rfl
  refine vacated.enter (m := ⟨s.writers.length, ownerRoot owner, s.now + ttl⟩)
    ⟨owner, names, .window⟩ rfl rfl rfl rfl (List.Subset.refl _) ?_ ?_ ?_ ?_ ?_
  · intro job lease
    cases lease
  · intro i w job _ _ _ lease
    cases lease
  · intro _
    exact Function.update_self _ _ _
  · intro o
    rw [State.mint, manifests_setManifest, manifests_setManifest]
    simp only [true_and]
    split <;> rfl
  · exact ⟨congrArg List.length writers.symm, rfl⟩

theorem isHeld_of_writer {i : Nat} {w : Writer} {job : Uuid} (found : s.writers[i]? = some w)
    (holding : s.phase i = .holding) (lease : w.cover = .lease job) :
    s.isHeld w.owner job = true := by
  rw [State.isHeld, List.any_eq_true]
  refine ⟨i, List.mem_range.mpr (List.getElem?_eq_some_iff.mp found).1, ?_⟩
  simp [holding, found, lease]

theorem hold (covered : Covered s) (owner : Owner) (names : List String) (job : Uuid) :
    Covered (s.hold owner names job) := by
  rw [State.hold]
  split
  · rename_i allowed
    have unheld : s.isHeld owner job = false := by simpa using (Bool.and_eq_true_iff.mp allowed).2
    refine covered.enter (m := ⟨s.writers.length, ownerRoot owner, 0⟩)
      ⟨owner, names, .lease job⟩ rfl rfl rfl rfl ?_ ?_ ?_ ?_ ?_ ⟨rfl, rfl⟩
    · intro lease isLease
      exact List.mem_insert_of_mem isLease
    · rintro _ ⟨rfl⟩
      exact List.mem_insert_self
    · rintro i w job found holding lease ⟨rfl⟩ rfl
      rw [isHeld_of_writer found holding lease] at unheld
      cases unheld
    · intro window
      cases window
    · intro o
      rw [if_neg (fun opens => Cover.noConfusion opens.1)]
      rfl
  · exact covered

theorem refresh (covered : Covered s) (owner : Owner) (deadline : Instant) :
    Covered (s.refresh owner deadline) := by
  rw [State.refresh]
  cases row : s.manifests owner with
  | none => exact covered
  | some m =>
    have here : (s.setManifest owner (some { m with deadline := max m.deadline deadline })).manifests
        owner = some { m with deadline := max m.deadline deadline } := Function.update_self _ _ _
    have kept {o : Owner} (other : o ≠ owner) : (s.setManifest owner
        (some { m with deadline := max m.deadline deadline })).manifests o = s.manifests o :=
      Function.update_of_ne other _ _
    refine ⟨covered.leased, covered.sole, ?_, ?_, covered.rowed, covered.lost, covered.origin⟩
    · intro i w found holding window
      obtain ⟨m', row', number⟩ := covered.windowed found holding window
      by_cases same : w.owner = owner
      · rw [same, row] at row'
        obtain rfl := Option.some.inj row'
        rw [same]
        exact ⟨_, here, number⟩
      · rw [kept same]
        exact ⟨m', row', number⟩
    · intro o m' row'
      by_cases same : o = owner
      · subst same
        obtain rfl := Option.some.inj (here.symm.trans row')
        have known := covered.minted row
        exact known
      · rw [kept same] at row'
        exact covered.minted row'

theorem issue (covered : Covered s) {version : Issued} (origin : ∀ i, version.writer = some i →
    ∃ w, s.writers[i]? = some w ∧ ∃ name ∈ w.names, version.key = ownerKey w.owner name) :
    Covered (s.issue version) := by
  refine ⟨covered.leased, covered.sole, covered.windowed, covered.minted, covered.rowed,
    covered.lost, ?_⟩
  intro n v i issued wrote
  have isIssued : v ∈ s.issued ++ [version] := List.mem_of_getElem? issued
  rcases List.mem_append.mp isIssued with old | new
  · obtain ⟨k, found⟩ := List.getElem?_of_mem old
    exact covered.origin found wrote
  · obtain rfl := List.mem_singleton.mp new
    exact origin i wrote

theorem put (covered : Covered s) (writer : Nat) (name : String) (modified : Instant) :
    Covered (s.put writer name modified) := by
  rw [State.put]
  cases found : s.writers[writer]? with
  | none => exact covered
  | some w =>
    dsimp only
    split
    · rename_i allowed
      refine covered.issue ?_
      rintro i ⟨rfl⟩
      exact ⟨w, found, name, allowed.2, rfl⟩
    · exact covered

theorem reapStaleLeases (covered : Covered s) (live : HoldersLive s) : Covered s.reapStaleLeases := by
  refine ⟨?_, covered.sole, covered.windowed, covered.minted, covered.rowed, covered.lost,
    covered.origin⟩
  intro i w job found holding lease
  rw [State.reapStaleLeases, List.mem_filter]
  exact ⟨covered.leased found holding lease, live i w job found holding lease⟩

theorem register (covered : Covered s) (writer : Nat) : Covered (s.register writer) := by
  rw [State.register]
  cases found : s.writers[writer]? with
  | none => exact covered
  | some w =>
    have registered : Function.update s.phase writer .registered writer = .registered :=
      Function.update_self _ _ _
    have named : ∀ name ∈ w.names, ownerKey w.owner name ∈ s.rows ++ w.names.map (ownerKey w.owner) :=
      fun name isName => List.mem_append_right _ (List.mem_map_of_mem isName)
    dsimp only
    split
    · rename_i holding
      cases cover : w.cover with
      | lease job =>
        refine covered.leave found holding rfl rfl (fun j other => Function.update_of_ne other _ _)
          ?_ (List.subset_append_left _ _) ?_ ?_ (fun _ => named) ?_
        · exact ne_of_eq_of_ne registered (by decide)
        · intro lease isLease others
          exact (List.mem_erase_of_ne (others job cover)).mpr isLease
        · intro o
          have leased : ¬(w.cover = .window ∧ o = w.owner) := by simp [cover]
          rw [if_neg leased]
          rfl
        · intro lost
          cases registered.symm.trans lost
      | window =>
        dsimp only
        split
        · refine covered.leave found holding rfl rfl (fun j other => Function.update_of_ne other _ _)
            ?_ (List.subset_append_left _ _) (fun lease isLease _ => isLease) ?_ (fun _ => named) ?_
          · exact ne_of_eq_of_ne registered (by decide)
          · intro o
            rw [manifests_setManifest]
            simp only [cover, true_and]
            rfl
          · intro _
            exact cover
        · exact covered
    · exact covered

end Covered

/-- Versions stay issued and a writer that has left its cover stays as it left it. -/
structure Grows (s s' : State) : Prop where
  issued : s.issued <+: s'.issued
  left : ∀ i, i < s.writers.length → s.phase i ≠ .holding → s'.phase i = s.phase i

namespace Grows

variable {s s' s'' : State}

theorem refl (s : State) : Grows s s := ⟨List.prefix_refl _, fun _ _ _ => rfl⟩

theorem loseWindow (covered : Covered s) (owner : Owner) : Grows s (s.loseWindow owner) := by
  rw [State.loseWindow]
  cases row : s.manifests owner with
  | none => exact refl s
  | some m =>
    refine ⟨List.prefix_refl _, ?_⟩
    intro i _ gone
    have other : i ≠ m.writer := by
      rintro rfl
      exact gone (covered.minted row).2.1
    exact Function.update_of_ne other _ _

theorem mint (covered : Covered s) (owner : Owner) (names : List String) (ttl : Duration) :
    Grows s (s.mint owner names ttl) := by
  have loses := loseWindow covered owner
  have writers : (s.loseWindow owner).writers = s.writers := by
    rw [State.loseWindow]
    split <;> rfl
  refine ⟨loses.issued, ?_⟩
  intro i old gone
  have other : i ≠ (s.loseWindow owner).writers.length := by
    rw [writers]
    exact Nat.ne_of_lt old
  exact (Function.update_of_ne other _ _).trans (loses.left i old gone)

theorem hold (s : State) (owner : Owner) (names : List String) (job : Uuid) :
    Grows s (s.hold owner names job) := by
  rw [State.hold]
  split
  · exact ⟨List.prefix_refl _, fun i old _ => Function.update_of_ne (Nat.ne_of_lt old) _ _⟩
  · exact refl s

theorem put (s : State) (writer : Nat) (name : String) (modified : Instant) :
    Grows s (s.put writer name modified) := by
  rw [State.put]
  cases s.writers[writer]? with
  | none => exact refl s
  | some w =>
    dsimp only
    split
    · exact ⟨List.prefix_append _ _, fun _ _ _ => rfl⟩
    · exact refl s

theorem register (s : State) (writer : Nat) : Grows s (s.register writer) := by
  rw [State.register]
  cases s.writers[writer]? with
  | none => exact refl s
  | some w =>
    dsimp only
    split
    · rename_i holding
      have left : ∀ i, i < s.writers.length → s.phase i ≠ .holding →
          Function.update s.phase writer .registered i = s.phase i := by
        intro i _ gone
        have other : i ≠ writer := by
          rintro rfl
          exact gone holding
        exact Function.update_of_ne other _ _
      cases w.cover with
      | lease job => exact ⟨List.prefix_refl _, left⟩
      | window =>
        dsimp only
        split
        · exact ⟨List.prefix_refl _, left⟩
        · exact refl s
    · exact refl s

end Grows

section Deletions

variable {s s' : State}

def Genuine (s : State) (version : ObjectVersion) : Prop :=
  ∃ v, s.issued[version.versionId]? = some v ∧ v.key = version.key

def Forsaken (s : State) (version : ObjectVersion) : Prop :=
  ∃ v, s.issued[version.versionId]? = some v ∧ v.key = version.key ∧
    ∀ i, v.writer = some i → s.phase i = .lost

def Owns (owner : Owner) (key : Key) : Prop := ∀ o name, key = ownerKey o name → o = owner

def TaskOwns : Task → Prop
  | .reap owner rest => ∀ key ∈ rest, Owns owner key
  | .sweep _ => True

def Stage (s : State) : Deleter → Prop
  | .idle => True
  | .claimed owner root => root = ownerRoot owner
  | .visiting owner keys => ∀ key ∈ keys, Owns owner key
  | .captured task batch =>
    TaskOwns task ∧ Owns task.owner batch.key ∧ ∀ target ∈ batch.targets, Genuine s target
  | .deleting task seen order =>
    TaskOwns task ∧ ∀ target ∈ order, target.key ∉ seen ∧ Forsaken s target

def Rightful (s : State) (deletion : Deletion) : Prop :=
  deletion.version.key ∉ deletion.rowsAtFence ∧ Forsaken s deletion.version

theorem Grows.issued_some (grows : Grows s s') {n : Nat} {v : Issued}
    (found : s.issued[n]? = some v) : s'.issued[n]? = some v := by
  obtain ⟨more, whole⟩ := grows.issued
  rw [← whole, List.getElem?_append_left (List.getElem?_eq_some_iff.mp found).1]
  exact found

theorem Genuine.mono {version : ObjectVersion} (genuine : Genuine s version) (grows : Grows s s') :
    Genuine s' version := by
  obtain ⟨v, found, key⟩ := genuine
  exact ⟨v, grows.issued_some found, key⟩

theorem Forsaken.mono {version : ObjectVersion} (forsaken : Forsaken s version) (covered : Covered s)
    (grows : Grows s s') : Forsaken s' version := by
  obtain ⟨v, found, key, lost⟩ := forsaken
  refine ⟨v, grows.issued_some found, key, ?_⟩
  intro i wrote
  obtain ⟨w, isWriter, _⟩ := covered.origin found wrote
  have gone := lost i wrote
  rw [grows.left i (List.getElem?_eq_some_iff.mp isWriter).1 (ne_of_eq_of_ne gone (by decide))]
  exact gone

theorem Stage.mono {stage : Deleter} (holds : Stage s stage) (covered : Covered s)
    (grows : Grows s s') : Stage s' stage := by
  cases stage with
  | idle => trivial
  | claimed owner root => exact holds
  | visiting owner keys => exact holds
  | captured task batch =>
    exact ⟨holds.1, holds.2.1, fun target isTarget => (holds.2.2 target isTarget).mono grows⟩
  | deleting task seen order =>
    refine ⟨holds.1, ?_⟩
    intro target isTarget
    obtain ⟨unnamed, forsaken⟩ := holds.2 target isTarget
    exact ⟨unnamed, forsaken.mono covered grows⟩

theorem TaskOwns.next {task : Task} (owns : TaskOwns task) : Stage s task.next := by
  cases task with
  | reap owner rest => exact owns
  | sweep owner => trivial

theorem owns_of_root {owner : Owner} {key : Key} (inside : ownerRoot owner <+: key) :
    Owns owner key := by
  rintro o name rfl
  exact (owner_of_root inside).symm

theorem owns_of_attribute {owner : Owner} {key : Key} (found : attributed key = some owner) :
    Owns owner key := by
  rintro o name rfl
  exact (owner_of_attribute found).symm

theorem genuine_iff {version : ObjectVersion} : s.genuine version = true ↔ Genuine s version := by
  rw [State.genuine, Option.any_eq_true]
  simp only [beq_iff_eq, Genuine]

/-- The fence passes, so the captured version's writer neither holds nor has registered. -/
theorem forsaken_of_unfenced {owner : Owner} {key : Key} {version : ObjectVersion}
    (covered : Covered s) (live : HoldersLive s) (unfenced : s.unfenced owner key = true)
    (owns : Owns owner key) (genuine : Genuine s version) (same : version.key = key) :
    key ∉ s.rows ∧ Forsaken s version := by
  simp only [State.unfenced, Bool.and_eq_true, decide_eq_true_eq, Option.isNone_iff_eq_none,
    List.all_eq_true, Bool.not_eq_true', Bool.and_eq_false_imp, beq_iff_eq] at unfenced
  obtain ⟨⟨⟨unnamed, _⟩, unminted⟩, unleased⟩ := unfenced
  obtain ⟨v, found, isKey⟩ := genuine
  refine ⟨unnamed, v, found, isKey, ?_⟩
  intro i wrote
  obtain ⟨w, isWriter, name, isName, at_key⟩ := covered.origin found wrote
  obtain rfl := owns w.owner name (by rw [← same, ← isKey, at_key])
  cases phase : s.phase i with
  | lost => rfl
  | registered =>
    have named := covered.rowed isWriter phase name isName
    rw [← at_key, isKey, same] at named
    exact absurd named unnamed
  | holding =>
    cases cover : w.cover with
    | lease job =>
      have dead := unleased _ (covered.leased isWriter phase cover) rfl
      rw [live i w job isWriter phase cover] at dead
      cases dead
    | window =>
      obtain ⟨m, row, _⟩ := covered.windowed isWriter phase cover
      rw [unminted] at row
      cases row

def Advances (s : State) (deleter : Nat) (s' : State) : Prop :=
  ∃ stage removed, Stage s stage ∧ (∀ deletion ∈ removed, Rightful s deletion) ∧
    s' = ({ s with deleted := s.deleted ++ removed } : State).setDeleter deleter stage

theorem Advances.to {deleter : Nat} {stage : Deleter} (earned : Stage s stage) :
    Advances s deleter (s.setDeleter deleter stage) :=
  ⟨stage, [], earned, by simp, by rw [List.append_nil]⟩

theorem Advances.stay {deleter : Nat} (earned : Stage s (s.deleters deleter)) :
    Advances s deleter s := by
  have same : s.setDeleter deleter (s.deleters deleter) = s := by
    rw [State.setDeleter, Function.update_eq_self]
  have moved : Advances s deleter (s.setDeleter deleter (s.deleters deleter)) := .to earned
  rwa [same] at moved

theorem list_advances {deleter : Nat} (earned : Stage s (s.deleters deleter))
    (page : Option VersionPage) : Advances s deleter (s.list deleter page) := by
  unfold State.list
  split
  · exact .to trivial
  · rename_i owner root page stage
    rw [stage] at earned
    obtain rfl : root = ownerRoot owner := earned
    split
    · rename_i listed
      apply Advances.to
      intro key isKey
      obtain ⟨entry, isEntry, rfl⟩ := List.mem_map.mp (List.mem_dedup.mp isKey)
      have inside := (Bool.and_eq_true_iff.mp (List.all_eq_true.mp listed entry isEntry)).2
      exact owns_of_root (of_decide_eq_true inside)
    · exact .stay (by rw [stage]; rfl)
  · exact .stay earned

theorem capture_genuine {key : Key} {limit : Nat} {pages : List VersionPage} {batch : VersionBatch}
    (issued : pages.all (fun page => page.entries.all s.genuine) = true)
    (captured : captureExactVersions key limit pages = some batch) :
    batch.key = key ∧ ∀ target ∈ batch.targets, Genuine s target := by
  obtain ⟨same, sources⟩ := captureFrom_spec captured
  refine ⟨same, ?_⟩
  intro target isTarget
  rcases sources target isTarget with none | ⟨page, isPage, here⟩
  · cases none
  · exact genuine_iff.mp (List.all_eq_true.mp (List.all_eq_true.mp issued page isPage) target here)

theorem capture_advances {deleter : Nat} (earned : Stage s (s.deleters deleter)) (key : Key)
    (limit : Nat) (pages : List VersionPage) :
    Advances s deleter (s.capture deleter key limit pages) := by
  rw [State.capture]
  split
  · rename_i issued
    split
    · rename_i owner next rest stage
      split
      · rename_i isNext
        subst isNext
        rw [stage] at earned
        have others : ∀ key ∈ rest, Owns owner key :=
          fun key isKey => earned key (List.mem_cons_of_mem _ isKey)
        split
        · rename_i batch captured
          obtain ⟨same, genuine⟩ := capture_genuine issued captured
          refine .to ⟨others, ?_, genuine⟩
          rw [same]
          exact earned next List.mem_cons_self
        · exact .to others
      · exact .stay earned
    · split
      · rename_i owner batch owned captured
        obtain ⟨same, genuine⟩ := capture_genuine issued captured
        split
        · exact .stay earned
        · refine .to ⟨trivial, ?_, genuine⟩
          rw [same]
          exact owns_of_attribute owned
      · exact .stay earned
    · exact .stay earned
  · exact .stay earned

theorem finish_advances {deleter : Nat} (earned : Stage s (s.deleters deleter)) :
    Advances s deleter (s.finish deleter) := by
  rw [State.finish]
  split
  · exact .to trivial
  · exact .stay earned

theorem unfenced_of_reclaimable {config : Config} {task : Task} {batch : VersionBatch}
    (passes : s.reclaimable config task batch = true) : s.unfenced task.owner batch.key = true := by
  cases task with
  | reap owner rest => exact passes
  | sweep owner => exact (Bool.and_eq_true_iff.mp passes).2

theorem fence_advances {deleter : Nat} (config : Config) (covered : Covered s) (live : HoldersLive s)
    (earned : Stage s (s.deleters deleter)) (locked : Bool) :
    Advances s deleter (s.fence config deleter locked) := by
  rw [State.fence]
  split
  · rename_i task batch stage
    rw [stage] at earned
    obtain ⟨rest, owns, genuine⟩ := earned
    split
    · exact .to rest.next
    · rename_i passes
      simp only [Bool.or_eq_true, Bool.not_eq_true', not_or, Bool.not_eq_false] at passes
      split
      · rename_i order ordered
        refine .to ⟨rest, ?_⟩
        intro target isTarget
        obtain ⟨captured, same⟩ := deletionOrder_spec ordered target isTarget
        rw [same]
        exact forsaken_of_unfenced covered live (unfenced_of_reclaimable passes.2) owns
          (genuine target captured) same
      · exact .to trivial
  · exact .stay earned

theorem delete_advances {deleter : Nat} (earned : Stage s (s.deleters deleter)) (lands : Bool) :
    Advances s deleter (s.delete deleter lands) := by
  rw [State.delete]
  split
  · rename_i task seen version rest stage
    rw [stage] at earned
    obtain ⟨owns, rightful⟩ := earned
    split
    · refine ⟨.deleting task seen rest, [⟨version, seen⟩], ⟨owns, ?_⟩, ?_, rfl⟩
      · exact fun target isTarget => rightful target (List.mem_cons_of_mem _ isTarget)
      · intro deletion isRemoved
        obtain rfl := List.mem_singleton.mp isRemoved
        exact rightful version List.mem_cons_self
    · exact .to owns.next
  · rename_i task seen stage
    rw [stage] at earned
    exact .to earned.1.next
  · exact .stay earned

end Deletions

structure Spared (s : State) : Prop where
  covered : Covered s
  earned : ∀ deleter, Stage s (s.deleters deleter)
  rightful : ∀ deletion ∈ s.deleted, Rightful s deletion

namespace Spared

variable {s s' : State}

theorem initial (now : Instant) : Spared (State.initial now) :=
  ⟨Covered.initial now, fun _ => trivial, fun deletion none => by cases none⟩

theorem grow (spared : Spared s) (covered : Covered s') (grows : Grows s s')
    (deleters : s'.deleters = s.deleters) (deleted : s'.deleted = s.deleted) : Spared s' := by
  refine ⟨covered, ?_, ?_⟩
  · intro deleter
    rw [deleters]
    exact (spared.earned deleter).mono spared.covered grows
  · intro deletion isDeleted
    rw [deleted] at isDeleted
    obtain ⟨unnamed, forsaken⟩ := spared.rightful deletion isDeleted
    exact ⟨unnamed, forsaken.mono spared.covered grows⟩

theorem deleters_setDeleter (s : State) (deleter other : Nat) (stage : Deleter) :
    (s.setDeleter deleter stage).deleters other = if other = deleter then stage else s.deleters other :=
  Function.update_apply _ _ _ _

theorem advance {deleter : Nat} (spared : Spared s) (advances : Advances s deleter s') :
    Spared s' := by
  obtain ⟨stage, removed, earned, rightful, rfl⟩ := advances
  have grows : Grows s (({ s with deleted := s.deleted ++ removed } : State).setDeleter deleter
      stage) := ⟨List.prefix_refl _, fun _ _ _ => rfl⟩
  refine ⟨spared.covered.frame rfl rfl rfl rfl rfl rfl, ?_, ?_⟩
  · intro other
    by_cases same : other = deleter
    · subst same
      rw [deleters_setDeleter, if_pos rfl]
      exact earned.mono spared.covered grows
    · rw [deleters_setDeleter, if_neg same]
      exact (spared.earned other).mono spared.covered grows
  · intro deletion isDeleted
    rcases List.mem_append.mp isDeleted with old | new
    · obtain ⟨unnamed, forsaken⟩ := spared.rightful deletion old
      exact ⟨unnamed, forsaken.mono spared.covered grows⟩
    · obtain ⟨unnamed, forsaken⟩ := rightful deletion new
      exact ⟨unnamed, forsaken.mono spared.covered grows⟩

theorem claim (spared : Spared s) (deleter : Nat) (owner : Owner) : Spared (s.claim deleter owner) := by
  rw [State.claim]
  split
  · rename_i m stage row
    split
    · have grows := Grows.loseWindow spared.covered owner
      have parties : (s.loseWindow owner).deleters = s.deleters ∧
          (s.loseWindow owner).deleted = s.deleted := by
        rw [State.loseWindow]
        split <;> exact ⟨rfl, rfl⟩
      have vacated : Spared ((s.loseWindow owner).setManifest owner none) :=
        spared.grow (spared.covered.vacate owner) ⟨grows.issued, grows.left⟩ parties.1 parties.2
      exact vacated.advance (.to (spared.covered.minted row).1)
    · exact spared
  · exact spared

theorem step (config : Config) (spared : Spared s) (live : HoldersLive s) (event : Event) :
    Spared (s.step config event) := by
  have covered := spared.covered
  have untouched : Grows s s := .refl s
  cases event with
  | tick now => exact spared.grow (covered.frame rfl rfl rfl rfl rfl rfl) ⟨untouched.1, untouched.2⟩ rfl rfl
  | setJob job row =>
    exact spared.grow (covered.frame rfl rfl rfl rfl rfl rfl) ⟨untouched.1, untouched.2⟩ rfl rfl
  | journal keys =>
    exact spared.grow (covered.frame rfl rfl rfl rfl rfl rfl) ⟨untouched.1, untouched.2⟩ rfl rfl
  | stray key modified isDeleteMarker =>
    refine spared.grow (covered.issue ?_) ⟨List.prefix_append _ _, untouched.2⟩ rfl rfl
    intro i wrote
    cases wrote
  | hold owner names job =>
    refine spared.grow (covered.hold owner names job) (.hold s owner names job) ?_ ?_
    all_goals
      rw [State.step, State.hold]
      split <;> rfl
  | mint owner names ttl =>
    refine spared.grow (covered.mint owner names ttl) (.mint covered owner names ttl) ?_ ?_
    all_goals
      rw [State.step, State.mint, State.loseWindow]
      split <;> rfl
  | refresh owner deadline =>
    have grows : Grows s (s.refresh owner deadline) := by
      rw [State.refresh]
      split <;> exact ⟨untouched.1, untouched.2⟩
    refine spared.grow (covered.refresh owner deadline) grows ?_ ?_
    all_goals
      rw [State.step, State.refresh]
      split <;> rfl
  | put writer name modified =>
    refine spared.grow (covered.put writer name modified) (.put s writer name modified) ?_ ?_
    all_goals
      rw [State.step, State.put]
      repeat' split
      all_goals rfl
  | register writer =>
    refine spared.grow (covered.register writer) (.register s writer) ?_ ?_
    all_goals
      rw [State.step, State.register]
      repeat' split
      all_goals rfl
  | reapStaleLeases =>
    exact spared.grow (covered.reapStaleLeases live) ⟨untouched.1, untouched.2⟩ rfl rfl
  | claim deleter owner => exact spared.claim deleter owner
  | list deleter page => exact spared.advance (list_advances (spared.earned deleter) page)
  | capture deleter key limit pages =>
    exact spared.advance (capture_advances (spared.earned deleter) key limit pages)
  | finish deleter => exact spared.advance (finish_advances (spared.earned deleter))
  | fence deleter locked =>
    exact spared.advance (fence_advances config covered live (spared.earned deleter) locked)
  | delete deleter lands => exact spared.advance (delete_advances (spared.earned deleter) lands)

end Spared

/-- The writer's window is replaced by another mint for its owner, or claimed past its deadline. -/
def Loses (s : State) (event : Event) (writer : Nat) : Prop :=
  ∃ owner m, s.manifests owner = some m ∧ m.writer = writer ∧
    ((∃ names ttl, event = .mint owner names ttl) ∨
      ∃ deleter, event = .claim deleter owner ∧ m.deadline < s.now)

section Losing

variable {s s' : State} {i : Nat}

theorem loseWindow_lost {owner : Owner} (lost : (s.loseWindow owner).phase i = .lost) :
    s.phase i = .lost ∨ ∃ m, s.manifests owner = some m ∧ m.writer = i := by
  rw [State.loseWindow] at lost
  cases row : s.manifests owner with
  | none =>
    rw [row] at lost
    exact .inl lost
  | some m =>
    rw [row] at lost
    by_cases same : i = m.writer
    · exact .inr ⟨m, rfl, same.symm⟩
    · exact .inl ((Function.update_of_ne same _ _).symm.trans lost)

theorem lost_of_update {writer : Nat} {phase : Phase} (phases : Nat → Phase) (other : phase ≠ .lost)
    (lost : Function.update phases writer phase i = .lost) : phases i = .lost := by
  by_cases same : i = writer
  · subst same
    rw [Function.update_self] at lost
    exact absurd lost other
  · rwa [Function.update_of_ne same] at lost

theorem hold_lost {owner : Owner} {names : List String} {job : Uuid}
    (lost : (s.hold owner names job).phase i = .lost) : s.phase i = .lost := by
  rw [State.hold] at lost
  split at lost
  · exact lost_of_update s.phase (by decide) lost
  · exact lost

theorem register_lost {writer : Nat} (lost : (s.register writer).phase i = .lost) :
    s.phase i = .lost := by
  rw [State.register] at lost
  cases found : s.writers[writer]? with
  | none =>
    rw [found] at lost
    exact lost
  | some w =>
    rw [found] at lost
    dsimp only at lost
    split at lost
    · cases cover : w.cover with
      | lease job =>
        rw [cover] at lost
        exact lost_of_update s.phase (by decide) lost
      | window =>
        rw [cover] at lost
        dsimp only at lost
        split at lost
        · exact lost_of_update s.phase (by decide) lost
        · exact lost
    · exact lost

theorem Advances.lost {deleter : Nat} (advances : Advances s deleter s')
    (lost : s'.phase i = .lost) : s.phase i = .lost := by
  obtain ⟨stage, removed, _, _, rfl⟩ := advances
  exact lost

theorem step_lost {config : Config} {event : Event} (spared : Spared s) (live : HoldersLive s)
    (lost : (s.step config event).phase i = .lost) : s.phase i = .lost ∨ Loses s event i := by
  cases event with
  | tick now => exact .inl lost
  | setJob job row => exact .inl lost
  | journal keys => exact .inl lost
  | stray key modified isDeleteMarker => exact .inl lost
  | hold owner names job => exact .inl (hold_lost lost)
  | mint owner names ttl =>
    rcases loseWindow_lost (lost_of_update (s.loseWindow owner).phase (by decide) lost) with
      before | ⟨m, row, number⟩
    · exact .inl before
    · exact .inr ⟨owner, m, row, number, .inl ⟨names, ttl, rfl⟩⟩
  | refresh owner deadline =>
    rw [State.step, State.refresh] at lost
    split at lost <;> exact .inl lost
  | put writer name modified =>
    rw [State.step, State.put] at lost
    repeat' split at lost
    all_goals exact .inl lost
  | register writer => exact .inl (register_lost lost)
  | reapStaleLeases => exact .inl lost
  | claim deleter owner =>
    rw [State.step, State.claim] at lost
    split at lost
    · rename_i m stage row
      split at lost
      · rename_i expired
        have taken : (s.loseWindow owner).phase i = .lost := lost
        rcases loseWindow_lost taken with before | ⟨m', row', number⟩
        · exact .inl before
        · obtain rfl := Option.some.inj (row.symm.trans row')
          exact .inr ⟨owner, m, row, number, .inr ⟨deleter, rfl, expired⟩⟩
      · exact .inl lost
    · exact .inl lost
  | list deleter page => exact .inl ((list_advances (spared.earned deleter) page).lost lost)
  | capture deleter key limit pages =>
    exact .inl ((capture_advances (spared.earned deleter) key limit pages).lost lost)
  | finish deleter => exact .inl ((finish_advances (spared.earned deleter)).lost lost)
  | fence deleter locked =>
    have advances := fence_advances config spared.covered live (spared.earned deleter) locked
    exact .inl (advances.lost lost)
  | delete deleter lands => exact .inl ((delete_advances (spared.earned deleter) lands).lost lost)

theorem lost_cause {config : Config} : ∀ {s : State} {events : List Event}, Spared s →
    Trace.Along (State.step config) (fun s _ => HoldersLive s) s events →
    (Trace.run (State.step config) s events).phase i = .lost → s.phase i = .lost ∨
      ∃ before event after, events = before ++ event :: after ∧
        Loses (Trace.run (State.step config) s before) event i := by
  intro s events
  induction events generalizing s with
  | nil =>
    intro _ _ lost
    exact .inl lost
  | cons event rest ih =>
    intro spared live lost
    rcases ih (spared.step config live.1 event) live.2 lost with
      now | ⟨before, cause, after, rfl, loses⟩
    · rcases step_lost spared live.1 now with before | loses
      · exact .inl before
      · exact .inr ⟨[], event, rest, rfl, loses⟩
    · exact .inr ⟨event :: before, cause, after, rfl, loses⟩

end Losing

/-- In every run in which the jobs of lease holders stay live, a deleted version's key had no row
when its fence was evaluated, and a version put under a cover was put under a window that another
mint replaced or that was claimed past its deadline; nothing put under a lease is deleted. -/
theorem deletions_spare_covers (config : Config) (now : Instant) (events : List Event)
    (live : Trace.Along (State.step config) (fun s _ => HoldersLive s) (State.initial now) events) :
    let final := Trace.run (State.step config) (State.initial now) events
    ∀ deletion ∈ final.deleted, deletion.version.key ∉ deletion.rowsAtFence ∧
      ∃ v, final.issued[deletion.version.versionId]? = some v ∧ v.key = deletion.version.key ∧
        ∀ i, v.writer = some i → final.phase i = .lost ∧
          (∃ w, final.writers[i]? = some w ∧ w.cover = .window) ∧
          ∃ before event after, events = before ++ event :: after ∧
            Loses (Trace.run (State.step config) (State.initial now) before) event i := by
  intro final deletion isDeleted
  have spared : Spared final := Trace.invariant_along
    (fun s event spared live => spared.step config live event) (Spared.initial now) live
  obtain ⟨unnamed, v, issued, key, lost⟩ := spared.rightful deletion isDeleted
  refine ⟨unnamed, v, issued, key, ?_⟩
  intro i wrote
  have gone := lost i wrote
  obtain ⟨w, isWriter, _⟩ := spared.covered.origin issued wrote
  refine ⟨gone, ⟨w, isWriter, spared.covered.lost isWriter gone⟩, ?_⟩
  rcases lost_cause (Spared.initial now) live gone with before | cause
  · cases before
  · exact cause

section Abandoned

def abandoned : Owner := ⟨.runs, 7⟩

def leased : Owner := ⟨.runs, 8⟩

def kernelOf (owner : Owner) (id : Nat) : ObjectVersion :=
  ⟨ownerKey owner "kernel", id, 5, true, false⟩

def pageOf (version : ObjectVersion) : VersionPage := ⟨[version], false, none⟩

/-- A window is minted, its kernel put, and its deadline passes before it is registered; the reaper
then deletes the kernel. A sweep of another owner, whose writer holds a lease, deletes nothing. -/
def abandonedUpload : List Event :=
  [.setJob 1 (some (.running, 1000)), .hold leased ["kernel"] 1, .mint abandoned ["kernel"] 10,
    .put 0 "kernel" 5, .put 1 "kernel" 5, .tick 100, .claim 0 abandoned,
    .list 0 (some (pageOf (kernelOf abandoned 1))),
    .capture 0 (ownerKey abandoned "kernel") 20 [pageOf (kernelOf abandoned 1)],
    .capture 1 (ownerKey leased "kernel") 20 [pageOf (kernelOf leased 0)],
    .fence 0 false, .fence 1 false, .delete 0 true, .delete 1 true]

theorem abandoned_upload_deleted :
    Trace.Along (State.step ⟨10, 10⟩) (fun s _ => HoldersLive s) (State.initial 0) abandonedUpload ∧
      ((Trace.run (State.step ⟨10, 10⟩) (State.initial 0) abandonedUpload).deleted.map (·.version) =
        [kernelOf abandoned 1]) ∧
      ((Trace.run (State.step ⟨10, 10⟩) (State.initial 0) abandonedUpload).issued[1]? =
        some ⟨ownerKey abandoned "kernel", 5, false, some 1⟩) ∧
      ((Trace.run (State.step ⟨10, 10⟩) (State.initial 0) abandonedUpload).writers[1]? =
        some ⟨abandoned, ["kernel"], .window⟩) := by
  decide +kernel

theorem abandoned_upload_was_lost : ∃ before event after,
    abandonedUpload = before ++ event :: after ∧
      Loses (Trace.run (State.step ⟨10, 10⟩) (State.initial 0) before) event 1 := by
  have live : Trace.Along (State.step ⟨10, 10⟩) (fun s _ => HoldersLive s) (State.initial 0)
      abandonedUpload := by decide +kernel
  have deletion : ⟨kernelOf abandoned 1, []⟩ ∈
      (Trace.run (State.step ⟨10, 10⟩) (State.initial 0) abandonedUpload).deleted := by
    decide +kernel
  obtain ⟨_, v, issued, _, lost⟩ := deletions_spare_covers ⟨10, 10⟩ 0 abandonedUpload live _ deletion
  have known : (Trace.run (State.step ⟨10, 10⟩) (State.initial 0) abandonedUpload).issued[1]? =
      some ⟨ownerKey abandoned "kernel", 5, false, some 1⟩ := by decide +kernel
  obtain rfl := Option.some.inj (known.symm.trans issued)
  exact (lost 1 rfl).2.2

end Abandoned

end Kdive.Uploads
