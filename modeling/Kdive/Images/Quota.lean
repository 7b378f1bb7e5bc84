import Kdive.Images.Attempts
import Kdive.Images.Retention

/-!
A project's private images stay within its caps. Rows are added only under the project's lock, and
while it is held the project's rows can only be registered or go; so the usage that was read bounds
the usage at the reservation. The row left out of the reading is the row that is adopted: the oldest
pending one of its identity, before the reading and at the reservation.
-/
namespace Kdive.Images
open ObjectStore (Bytes Store Object Head)

section Usage

variable {catalog other : Catalog} {project : String}

theorem usage_none (catalog : Catalog) (project : String) :
    projectUsage catalog project none = ((catalog.rows.filter (CatalogRow.charged project)).length,
      ((catalog.rows.filter (CatalogRow.charged project)).map CatalogRow.sizeBytes).sum) := by
  have all : (fun row : CatalogRow => row.charged project && some row.id != none) =
      CatalogRow.charged project := by
    funext row
    have differs : (some row.id != none) = true := rfl
    rw [differs, Bool.and_true]
  simp only [projectUsage, all]

theorem usage_some (catalog : Catalog) (project : String) (id : Uuid) :
    projectUsage catalog project (some id) =
      ((catalog.rows.filter (fun row => row.charged project && row.id != id)).length,
        ((catalog.rows.filter (fun row => row.charged project && row.id != id)).map
          CatalogRow.sizeBytes).sum) := rfl

theorem usage_le {adopting adopting' : Option Uuid}
    (covers : ∀ row ∈ catalog.rows, row.charged project = true → some row.id ≠ adopting →
      ∃ old ∈ other.rows, old.charged project = true ∧ some old.id ≠ adopting' ∧
        old.id = row.id ∧ old.sizeBytes = row.sizeBytes) :
    (projectUsage catalog project adopting).1 ≤ (projectUsage other project adopting').1 ∧
      (projectUsage catalog project adopting).2 ≤ (projectUsage other project adopting').2 := by
  apply Table.weigh_le
  intro row member selected
  simp only [Bool.and_eq_true, bne_iff_ne] at selected
  obtain ⟨old, held, charged, left, same, size⟩ := covers row member selected.1 selected.2
  exact ⟨old, held, by simp [charged, left], same, size⟩

theorem usage_split {row : CatalogRow} (member : row ∈ catalog.rows)
    (charged : row.charged project = true) :
    (projectUsage catalog project none).1 = (projectUsage catalog project (some row.id)).1 + 1 ∧
      (projectUsage catalog project none).2 =
        (projectUsage catalog project (some row.id)).2 + row.sizeBytes := by
  rw [usage_none, usage_some]
  exact Table.weigh_split member charged

theorem usage_le_add {row : Uuid} {size : Nat}
    (sized : ∀ r ∈ catalog.rows, r.id = row → r.sizeBytes = size) :
    (projectUsage catalog project none).1 ≤ (projectUsage catalog project (some row)).1 + 1 ∧
      (projectUsage catalog project none).2 ≤
        (projectUsage catalog project (some row)).2 + size := by
  rw [usage_none, usage_some]
  exact Table.weigh_le_add sized

end Usage

section Invariant

def CatalogRow.rivals (row other : CatalogRow) : Prop :=
  row.visibility = .privateImage ∧ other.visibility = .privateImage ∧ row.owner = other.owner ∧
    row.provider = other.provider ∧ row.name = other.name

def Leads (catalog : Catalog) (row : CatalogRow) : Prop :=
  ∀ other ∈ catalog.rows, other.state = .pending → row.rivals other →
    adoptionRank row ≤ adoptionRank other

/-- Where a reservation of the same size was left behind, by an upload of the run or as the oldest of
its identity, nothing was denied. -/
def Fair (settings : Settings) (reading : QuotaReading) : Prop :=
  ∀ row ∈ reading.catalog.rows, reading.asked.request.adopts true row = true →
    (∃ res ∈ reading.reservations, row.attempt = some res.attempt) ∨ Leads reading.catalog row →
    row.sizeBytes = reading.asked.newBytes →
    quotaDenial settings reading.asked.project
      (projectUsage reading.catalog reading.asked.project reading.adopting).1
      (projectUsage reading.catalog reading.asked.project reading.adopting).2
      reading.asked.newBytes = none

structure Capped (settings : Settings) (project : String) (s : State) : Prop where
  fresh : ∀ a, s.nextId ≤ a → s.issued a = none
  attempts : ∀ row ∈ s.catalog.rows, ∀ a, row.attempt = some a → a < s.nextId
  pending : ∀ row ∈ s.catalog.rows, row.attempt ≠ none → row.state = .pending
  count : (projectUsage s.catalog project none).1 ≤ settings.maxCount
  bytes : (projectUsage s.catalog project none).2 ≤ settings.maxBytes
  leads : ∀ row ∈ s.catalog.rows, ∀ res ∈ s.reservations, row.attempt = some res.attempt →
    Leads s.catalog row
  readings : ∀ reading ∈ s.readings, reading.asked.project = project → Fair settings reading

def CatalogRow.OwnedBy (row : CatalogRow) (project : String) : Prop :=
  row.visibility = .privateImage ∧ row.owner = some project

def Flipped (s : State) (row : CatalogRow) : Prop :=
  row.state = .registered ∧ ∃ old ∈ s.catalog.rows, old.state = .pending ∧ old.id = row.id ∧
    old.sizeBytes = row.sizeBytes ∧ old.visibility = row.visibility ∧ old.owner = row.owner

/-- While a process holds a project, its rows are as they were, or registered, or gone. -/
structure QuotaRely (i : Nat) (s t : State) : Prop where
  issued : ∀ a, s.issued a = some i → t.issued a = some i
  attempts : ∀ a, s.issued a = some i → ∀ row ∈ t.catalog.rows, row.attempt = some a →
    ∃ old ∈ s.catalog.rows, old.attempt = some a
  project : ∀ q, s.projectLocks q = some i → t.projectLocks q = some i
  rows : ∀ row, s.rowLocks row = some i →
    t.rowLocks row = some i ∧ Table.find t.catalog row = Table.find s.catalog row
  shrinks : ∀ q, s.projectLocks q = some i → ∀ row ∈ t.catalog.rows, row.OwnedBy q →
    row ∈ s.catalog.rows ∨ Flipped s row

variable {settings : Settings} {project : String} {i j : Nat} {s t u : State}

theorem QuotaRely.refl (i : Nat) (s : State) : QuotaRely i s s where
  issued := fun _ known => known
  attempts := fun _ _ row member holds => ⟨row, member, holds⟩
  project := fun _ held => held
  rows := fun _ held => ⟨held, rfl⟩
  shrinks := fun _ _ _ member _ => .inl member

theorem QuotaRely.trans (first : QuotaRely i s t) (second : QuotaRely i t u) : QuotaRely i s u where
  issued := fun a known => second.issued a (first.issued a known)
  attempts := by
    intro a known row member holds
    obtain ⟨old, there, before⟩ := second.attempts a (first.issued a known) row member holds
    exact first.attempts a known old there before
  project := fun q held => second.project q (first.project q held)
  rows := by
    intro row held
    obtain ⟨still, same⟩ := first.rows row held
    obtain ⟨still', same'⟩ := second.rows row still
    exact ⟨still', same'.trans same⟩
  shrinks := by
    intro q held row member owned
    rcases second.shrinks q (first.project q held) row member owned with before | flipped
    · exact first.shrinks q held row before owned
    · obtain ⟨registered, old, there, pending, isRow, size, visibility, owner⟩ := flipped
      have ownedBefore : old.OwnedBy q := ⟨visibility.trans owned.1, owner.trans owned.2⟩
      rcases first.shrinks q held old there ownedBefore with before | ⟨was, _⟩
      · exact .inr ⟨registered, old, before, pending, isRow, size, visibility, owner⟩
      · rw [pending] at was
        cases was

structure NoRows (i : Nat) (s t : State) : Prop where
  catalog : t.catalog = s.catalog
  reservations : t.reservations = s.reservations
  readings : t.readings = s.readings
  later : s.nextId ≤ t.nextId
  fresh : (∀ a, s.nextId ≤ a → s.issued a = none) → ∀ a, t.nextId ≤ a → t.issued a = none
  issued : ∀ a p, s.issued a = some p →
    (∀ b, s.nextId ≤ b → s.issued b = none) → t.issued a = some p
  project : ∀ q p, s.projectLocks q = some p → p ≠ i → t.projectLocks q = some p
  rows : ∀ row p, s.rowLocks row = some p → p ≠ i → t.rowLocks row = some p

theorem NoRows.capped (move : NoRows i s t) (capped : Capped settings project s) :
    Capped settings project t where
  fresh := move.fresh capped.fresh
  attempts := by
    rw [move.catalog]
    intro row member a holds
    exact Nat.lt_of_lt_of_le (capped.attempts row member a holds) move.later
  pending := by
    rw [move.catalog]
    exact capped.pending
  count := by
    rw [move.catalog]
    exact capped.count
  bytes := by
    rw [move.catalog]
    exact capped.bytes
  leads := by
    rw [move.catalog, move.reservations]
    exact capped.leads
  readings := by
    rw [move.readings]
    exact capped.readings

theorem NoRows.rely (move : NoRows i s t) (capped : Capped settings project s) (other : j ≠ i) :
    QuotaRely j s t where
  issued := fun a known => move.issued a j known capped.fresh
  attempts := by
    rw [move.catalog]
    exact fun _ _ row member holds => ⟨row, member, holds⟩
  project := fun q held => move.project q j held other
  rows := by
    intro row held
    refine ⟨move.rows row j held other, ?_⟩
    rw [move.catalog]
  shrinks := by
    rw [move.catalog]
    exact fun _ _ _ member _ => .inl member

theorem endTransaction_project (s : State) (i : Nat) {q : String} {p : Nat}
    (held : s.projectLocks q = some p) (other : p ≠ i) :
    (s.endTransaction i).projectLocks q = some p := by
  simp [State.endTransaction, held, Option.filter, other]

theorem noRows_of_locks (only : LocksOnly i s t) (readings : t.readings = s.readings)
    (later : s.nextId ≤ t.nextId)
    (project : ∀ q p, s.projectLocks q = some p → p ≠ i → t.projectLocks q = some p) :
    NoRows i s t :=
  ⟨only.catalog, only.reservations, readings, later, only.fresh, only.issued, project, only.rows⟩

theorem noRows_endTransaction (s : State) (i : Nat) : NoRows i s (s.endTransaction i) :=
  noRows_of_locks (locksOnly_endTransaction s i) rfl (Nat.le_refl _)
    (fun _ _ held other => endTransaction_project s i held other)

theorem noRows_endSession (s : State) (i : Nat) : NoRows i s (s.endSession i) :=
  noRows_of_locks (locksOnly_endSession s i) rfl (Nat.le_refl _)
    (fun _ _ held other => endTransaction_project s i held other)

def quotaDiscipline (settings : Settings) (project : String) : Calls.Discipline (service settings) where
  inv := Capped settings project
  assumes := fun _ _ _ => True
  rely := QuotaRely
  fresh := fun _ _ => True
  rely_refl := QuotaRely.refl
  rely_trans := fun _ _ _ _ first second => first.trans second
  fresh_rely := fun _ _ _ _ _ => trivial
  leave_inv := fun i _ s capped => (noRows_endSession s i).capped capped
  leave_rely := fun i _ _ s capped other => (noRows_endSession s i).rely capped other

theorem NoRows.allows (move : NoRows i s t) (capped : Capped settings project s) :
    Calls.Allows (quotaDiscipline settings project) i s t :=
  ⟨move.capped capped, fun _ other => move.rely capped other⟩

theorem allows_noRows (allowed : Calls.Allows (quotaDiscipline settings project) i s t)
    (move : NoRows i t u) : Calls.Allows (quotaDiscipline settings project) i s u :=
  ⟨move.capped allowed.inv,
    fun j other => (allowed.rely j other).trans (move.rely allowed.inv other)⟩

end Invariant

section Moves

variable {settings : Settings} {project : String} {i : Nat} {s t : State}

theorem noRows_refl (s : State) : NoRows i s s where
  catalog := rfl
  reservations := rfl
  readings := rfl
  later := Nat.le_refl _
  fresh := fun fresh => fresh
  issued := fun _ _ known _ => known
  project := fun _ _ held _ => held
  rows := fun _ _ held _ => held

def Request.silent : Request → Bool
  | .projectUsage _ _ => false
  | r => r.plain

theorem noRows_of_silent {r : Request} {a : r.Answer} (silent : r.silent = true)
    (served : s.serve settings i r = some (a, t)) : NoRows i s t := by
  have plain : r.plain = true := by
    cases r <;> first | exact silent | rfl
  have only := locksOnly_of_plain plain served
  cases r with
  | newId =>
    obtain rfl := Calls.state_eq served
    exact noRows_of_locks only rfl (Nat.le_succ _) (fun _ _ held _ => held)
  | endTransaction =>
    obtain rfl := Calls.state_eq served
    exact noRows_endTransaction s i
  | lockProject project =>
    rw [State.serve] at served
    split at served
    · rename_i free
      obtain rfl := Calls.state_eq served
      refine noRows_of_locks only rfl (Nat.le_refl _) ?_
      intro q p held other
      have elsewhere : q ≠ project := by
        rintro rfl
        simp only [held, Option.all_some, beq_iff_eq] at free
        exact other free
      simp only [Function.update_of_ne elsewhere, held]
    · cases served
  | lockRow selection row =>
    rw [State.serve] at served
    split at served
    · split at served <;>
      · obtain rfl := Calls.state_eq served
        exact noRows_of_locks only rfl (Nat.le_refl _) (fun _ _ held _ => held)
    · cases served
  | lockPublish row =>
    rw [State.serve] at served
    split at served
    · obtain rfl := Calls.state_eq served
      exact noRows_of_locks only rfl (Nat.le_refl _) (fun _ _ held _ => held)
    · cases served
  | tryLockPublish row =>
    rw [State.serve] at served
    split at served <;>
    · obtain rfl := Calls.state_eq served
      exact noRows_of_locks only rfl (Nat.le_refl _) (fun _ _ held _ => held)
  | projectUsage asked adopting => cases silent
  | begin | registeredName _ | snapshot _ | unlockPublish _ | candidates _ | head _ | get _
  | getRow _ | expiries _ | captureExactVersions _ _ | advance _ =>
    obtain rfl := Calls.state_eq served
    exact noRows_of_locks only rfl (Nat.le_refl _) (fun _ _ held _ => held)
  | reserve _ _ _ | assertOwner _ | register _ _ | registerRow _ _ | deleteRow _ | put _ _ _ _
  | deleteVersion _ _ => cases plain

/-- A pending row becomes registered: it was charged before, and is charged as much now. -/
theorem quota_flip (capped : Capped settings project s) {row : CatalogRow}
    (member : row ∈ s.catalog.rows) (pending : row.state = .pending)
    (free : s.rowFree i row.id = true) (clearConfig : Bool) :
    Calls.Allows (quotaDiscipline settings project) i s (s.flip row clearConfig) := by
  have origin : ∀ row' ∈ (s.flip row clearConfig).catalog.rows,
      row' ∈ s.catalog.rows ∨ Flipped s row' := by
    intro row' member'
    rcases mem_updateRow (registered_id clearConfig) member' with ⟨old, _⟩ | ⟨old, here, isRow, rfl⟩
    · exact .inl old
    · obtain rfl := Table.row_unique here member isRow
      exact .inr ⟨rfl, old, here, pending, rfl, rfl, rfl, rfl⟩
  have unflipped : ∀ row' ∈ (s.flip row clearConfig).catalog.rows, row'.state = .pending →
      row' ∈ s.catalog.rows := by
    intro row' member' pending'
    rcases origin row' member' with old | ⟨registered, _⟩
    · exact old
    · rw [pending'] at registered
      cases registered
  have usage := @usage_le (s.flip row clearConfig).catalog s.catalog project none none (by
    intro row' member' charged _
    rcases origin row' member' with old | ⟨_, old, here, waits, isRow, size, visibility, owner⟩
    · exact ⟨row', old, charged, by simp, rfl, rfl⟩
    · refine ⟨old, here, ?_, by simp, isRow, size⟩
      simp only [CatalogRow.charged, Bool.and_eq_true, beq_iff_eq] at charged ⊢
      simp [visibility, owner, waits, charged.1.1, charged.1.2])
  constructor
  · exact { capped with
      attempts := fun row' member' a holds =>
        capped.attempts row' (mem_flip_of_attempt member' holds).1 a holds
      pending := by
        intro row' member' holds
        obtain ⟨a, isAttempt⟩ := Option.ne_none_iff_exists'.mp holds
        exact capped.pending row' (mem_flip_of_attempt member' isAttempt).1 holds
      count := Nat.le_trans usage.1 capped.count
      bytes := Nat.le_trans usage.2 capped.bytes
      leads := by
        intro row' member' res reserved holds other there waits rival
        exact capped.leads row' (mem_flip_of_attempt member' holds).1 res reserved holds other
          (unflipped other there waits) waits rival }
  · intro j other
    exact { QuotaRely.refl j s with
      attempts := fun a _ row' member' holds =>
        ⟨row', (mem_flip_of_attempt member' holds).1, holds⟩
      rows := by
        intro row' held
        have elsewhere : row' ≠ row.id := by
          rintro rfl
          exact other (rowFree_other free held)
        exact ⟨held, find_updateRow_other (registered_id clearConfig) elsewhere⟩
      shrinks := fun q _ row' member' _ => origin row' member' }

theorem noRows_unchecked (s : State) (i : Nat) :
    NoRows i s { s with checked := Function.update s.checked i none } :=
  { noRows_refl s with }

theorem quota_register (capped : Capped settings project s) {res : PublishReservation}
    (free : s.rowFree i res.row = true) (clearConfig : Bool) :
    Calls.Allows (quotaDiscipline settings project) i s (s.register i res clearConfig).2 := by
  have finished := allows_noRows ((noRows_unchecked s i).allows capped) (noRows_endTransaction _ i)
  unfold State.register
  split
  · exact allows_noRows finished { noRows_refl _ with }
  · rename_i row found
    split
    · exact finished
    · obtain ⟨found, registers⟩ := Option.filter_eq_some_iff.mp found
      have member := Table.find_mem found
      have holds : row.attempt = some res.attempt := by
        simp only [PublishReservation.registers, Bool.and_eq_true, beq_iff_eq] at registers
        exact registers.1.1.2
      have pending := capped.pending row member (by simp [holds])
      rw [← show row.id = res.row from Table.find_key found] at free
      exact allows_noRows (allows_noRows (quota_flip capped member pending free clearConfig)
        (noRows_unchecked _ i)) (noRows_endTransaction _ i)

theorem quota_registerRow (capped : Capped settings project s) {row : CatalogRow}
    (found : Table.find s.catalog row.id = some row) (pending : row.state = .pending)
    (free : s.rowFree i row.id = true) (clearConfig : Bool) :
    Calls.Allows (quotaDiscipline settings project) i s (s.registerRow i row.id clearConfig).2 := by
  unfold State.registerRow
  rw [found]
  dsimp only
  split
  · exact (noRows_endTransaction s i).allows capped
  · exact allows_noRows (quota_flip capped (Table.find_mem found) pending free clearConfig)
      (noRows_endTransaction _ i)

theorem quota_deleteRow (capped : Capped settings project s) {row : Uuid}
    (free : s.rowFree i row = true) :
    Calls.Allows (quotaDiscipline settings project) i s
      ({ s with catalog := Table.delete s.catalog (·.id == row) }.endTransaction i) := by
  have fewer : ∀ r, r ∈ (Table.delete s.catalog (·.id == row)).rows → r ∈ s.catalog.rows :=
    fun r member => (Table.mem_delete.mp member).1
  have usage := @usage_le (Table.delete s.catalog (·.id == row)) s.catalog project none none
    (fun r member charged _ => ⟨r, fewer r member, charged, by simp, rfl, rfl⟩)
  have deleted : Calls.Allows (quotaDiscipline settings project) i s
      { s with catalog := Table.delete s.catalog (·.id == row) } := by
    constructor
    · exact { capped with
        attempts := fun r member => capped.attempts r (fewer r member)
        pending := fun r member => capped.pending r (fewer r member)
        count := Nat.le_trans usage.1 capped.count
        bytes := Nat.le_trans usage.2 capped.bytes
        leads := fun r member res reserved holds other there =>
          capped.leads r (fewer r member) res reserved holds other (fewer other there) }
    · intro j other
      exact { QuotaRely.refl j s with
        attempts := fun a _ r member holds => ⟨r, fewer r member, holds⟩
        rows := by
          intro row' held
          refine ⟨held, find_delete_other ?_⟩
          rintro rfl
          exact other (rowFree_other free held)
        shrinks := fun q _ r member _ => .inl (fewer r member) }
  exact allows_noRows deleted (noRows_endTransaction _ i)

def Request.harmless : Request → Bool
  | .reserve _ _ _ | .registerRow _ _ | .projectUsage _ _ => false
  | _ => true

theorem quota_harmless {r : Request} {a : r.Answer} (harmless : r.harmless = true)
    (capped : Capped settings project s) (served : s.serve settings i r = some (a, t)) :
    Calls.Allows (quotaDiscipline settings project) i s t := by
  by_cases silent : r.silent = true
  · exact (noRows_of_silent silent served).allows capped
  cases r with
  | assertOwner res =>
    rw [State.serve] at served
    split at served <;>
    · obtain rfl := Calls.state_eq served
      exact NoRows.allows { noRows_refl s with } capped
  | register res clearConfig =>
    rw [State.serve] at served
    split at served
    · rename_i free
      obtain rfl : (s.register i res clearConfig).2 = t := congrArg Prod.snd (Option.some.inj served)
      exact quota_register capped free clearConfig
    · cases served
  | deleteRow row =>
    rw [State.serve] at served
    split at served
    · rename_i free
      obtain rfl := Calls.state_eq served
      exact quota_deleteRow capped free
    · cases served
  | put attempt key content checksum =>
    obtain rfl : (s.put settings attempt key content checksum).2 = t :=
      congrArg Prod.snd (Option.some.inj served)
    unfold State.put
    split
    · exact NoRows.allows { noRows_refl s with } capped
    · exact (noRows_refl s).allows capped
  | deleteVersion key version =>
    obtain rfl := Calls.state_eq served
    exact NoRows.allows { noRows_refl s with } capped
  | reserve _ _ _ | registerRow _ _ | projectUsage _ _ => cases harmless
  | _ => exact absurd rfl silent

end Moves

section Reserve

variable {settings : Settings} {project q : String} {i : Nat} {s t : State}
  {res : PublishReservation} {request : PublishRequest}

/-- The row has the visibility, the owner, the provider and the name that are asked for. -/
structure Identity (request : PublishRequest) (row : CatalogRow) : Prop where
  visibility : row.visibility = request.visibility
  owner : row.owner = request.owner
  provider : row.provider = request.provider
  name : row.name = request.name

theorem identity_of_adopts {pendingOnly : Bool} {row : CatalogRow}
    (adopts : request.adopts pendingOnly row = true) : Identity request row := by
  simp only [PublishRequest.adopts, Bool.and_eq_true, beq_iff_eq] at adopts
  obtain ⟨⟨⟨⟨⟨provider, name⟩, visibility⟩, owner⟩, _⟩, _⟩ := adopts
  exact ⟨visibility, owner, provider, name⟩

/-- A private request adopts the pending rows of its identity, whatever their architecture. -/
theorem adopts_true_iff (asks : request.visibility = .privateImage) {row : CatalogRow} :
    request.adopts true row = true ↔ Identity request row ∧ row.state = .pending := by
  constructor
  · intro adopts
    refine ⟨identity_of_adopts adopts, ?_⟩
    simp only [PublishRequest.adopts, Bool.and_eq_true, beq_iff_eq, if_true] at adopts
    exact adopts.1.2
  · rintro ⟨⟨visibility, owner, provider, name⟩, pending⟩
    simp [PublishRequest.adopts, visibility, owner, provider, name, pending, asks]

theorem adopts_false_of_true (asks : request.visibility = .privateImage) {row : CatalogRow}
    (adopts : request.adopts true row = true) : request.adopts false row = true := by
  obtain ⟨⟨visibility, owner, provider, name⟩, pending⟩ := (adopts_true_iff asks).mp adopts
  simp [PublishRequest.adopts, visibility, owner, provider, name, pending, asks]

theorem Identity.rivals {row other : CatalogRow} (left : Identity request row)
    (asks : request.visibility = .privateImage) :
    row.rivals other ↔ Identity request other := by
  constructor
  · rintro ⟨_, visibility, owner, provider, name⟩
    exact ⟨visibility.trans asks.symm, owner.symm.trans left.owner,
      provider.symm.trans left.provider, name.symm.trans left.name⟩
  · intro right
    exact ⟨left.visibility.trans asks, right.visibility.trans asks,
      left.owner.trans right.owner.symm, left.provider.trans right.provider.symm,
      left.name.trans right.name.symm⟩

theorem adoptionRank_id {row other : CatalogRow} (same : adoptionRank row = adoptionRank other) :
    row.id = other.id := by
  simp only [adoptionRank, EmbeddingLike.apply_eq_iff_eq, Prod.mk.injEq] at same
  exact same.2.2

theorem adoptionRank_pending {row other : CatalogRow} (pending : row.state = .pending)
    (pending' : other.state = .pending) (created : row.createdAt = other.createdAt)
    (same : row.id = other.id) : adoptionRank row = adoptionRank other := by
  simp [adoptionRank, pending, pending', created, same]

structure Entitled (settings : Settings) (q : String) (i : Nat) (s : State)
    (res : PublishReservation) (adopting : Bool) : Prop where
  asks : res.request.visibility = .privateImage
  owner : res.request.owner = some q
  held : s.projectLocks q = some i
  free : s.rowFree i res.row = true
  issued : s.issued res.attempt = some i
  unused : ∀ row ∈ s.catalog.rows, row.attempt ≠ some res.attempt
  count : (projectUsage s.catalog q (some res.row)).1 + 1 ≤ settings.maxCount
  bytes : (projectUsage s.catalog q (some res.row)).2 + res.sizeBytes ≤ settings.maxBytes
  adopted : adopting = true → ∀ old ∈ s.catalog.rows, old.id = res.row → Identity res.request old
  first : ∀ other ∈ s.catalog.rows, res.request.adopts true other = true → adopting = true ∧
    ∃ old ∈ s.catalog.rows, old.id = res.row ∧ old.state = .pending ∧
      adoptionRank old ≤ adoptionRank other

structure Placed (s : State) (res : PublishReservation) (adopting : Bool) (row : CatalogRow) : Prop
    extends Refreshed res row, Identity res.request row where
  created : adopting = true → ∃ old ∈ s.catalog.rows, old.id = res.row ∧
    old.createdAt = row.createdAt

theorem claimed_rows {adopting : Bool} {now : Instant}
    (adopted : adopting = true → ∀ old ∈ s.catalog.rows, old.id = res.row →
      Identity res.request old) :
    (s.claimed res adopting now).catalog = s.catalog ∨
      ∀ row ∈ (s.claimed res adopting now).catalog.rows,
        (row ∈ s.catalog.rows ∧ row.id ≠ res.row) ∨ Placed s res adopting row := by
  unfold State.claimed
  cases adopting with
  | true =>
    right
    intro row member
    rcases mem_updateRow (State.refresh_id res now) member with old | ⟨old, here, isRow, rfl⟩
    · exact .inl old
    · right
      have identity := adopted rfl old here isRow
      refine ⟨refreshed_refresh isRow now, ?_, ?_⟩
      · unfold refresh
        split <;> exact ⟨identity.visibility, identity.owner, identity.provider, identity.name⟩
      · intro _
        refine ⟨old, here, isRow, ?_⟩
        unfold refresh
        split <;> rfl
  | false =>
    cases taken : Table.find s.catalog res.row with
    | some row => exact .inl (Table.insert_taken (r := pendingRow res now) taken)
    | none =>
      right
      intro row member
      rcases Table.mem_insert member with old | ⟨rfl, _⟩
      · exact .inl ⟨old, Table.find_eq_none_iff.mp taken row old⟩
      · exact .inr ⟨⟨rfl, rfl, rfl, rfl, rfl, rfl⟩, ⟨rfl, rfl, rfl, rfl⟩, by simp⟩

theorem Entitled.usage {adopting : Bool} (entitled : Entitled settings q i s res adopting)
    {catalog : Catalog} (placed : ∀ row ∈ catalog.rows,
      (row ∈ s.catalog.rows ∧ row.id ≠ res.row) ∨ Placed s res adopting row) :
    (projectUsage catalog q none).1 ≤ settings.maxCount ∧
      (projectUsage catalog q none).2 ≤ settings.maxBytes := by
  have added := @usage_le_add catalog q res.row res.sizeBytes (by
    intro row member isRow
    rcases placed row member with ⟨_, elsewhere⟩ | new
    · exact absurd isRow elsewhere
    · exact new.size)
  have others := @usage_le catalog s.catalog q (some res.row) (some res.row) (by
    intro row member charged elsewhere
    rcases placed row member with ⟨old, _⟩ | new
    · exact ⟨row, old, charged, elsewhere, rfl, rfl⟩
    · exact absurd (congrArg some new.isRow) elsewhere)
  have count := entitled.count
  have bytes := entitled.bytes
  omega

theorem Entitled.usage_other {adopting : Bool} (entitled : Entitled settings q i s res adopting)
    {catalog : Catalog} (placed : ∀ row ∈ catalog.rows,
      (row ∈ s.catalog.rows ∧ row.id ≠ res.row) ∨ Placed s res adopting row)
    (other : project ≠ q) :
    (projectUsage catalog project none).1 ≤ (projectUsage s.catalog project none).1 ∧
      (projectUsage catalog project none).2 ≤ (projectUsage s.catalog project none).2 := by
  apply usage_le
  intro row member charged _
  rcases placed row member with ⟨old, _⟩ | new
  · exact ⟨row, old, charged, by simp, rfl, rfl⟩
  · simp only [CatalogRow.charged, Bool.and_eq_true, beq_iff_eq] at charged
    have owner : some q = some project :=
      entitled.owner.symm.trans (new.owner.symm.trans charged.1.2)
    exact absurd (Option.some.inj owner).symm other

theorem Entitled.leads {adopting : Bool} (entitled : Entitled settings q i s res adopting)
    (capped : Capped settings project s) {catalog : Catalog}
    (placed : ∀ row ∈ catalog.rows,
      (row ∈ s.catalog.rows ∧ row.id ≠ res.row) ∨ Placed s res adopting row)
    {row : CatalogRow} (member : row ∈ catalog.rows) {res' : PublishReservation}
    (reserved : res' ∈ s.reservations ++ [res]) (holds : row.attempt = some res'.attempt) :
    Leads catalog row := by
  -- whatever was placed has the rank of the pending row it took over
  have rank : ∀ new old, Placed s res adopting new → old ∈ s.catalog.rows → old.id = res.row →
      adopting = true → old.state = .pending → adoptionRank new = adoptionRank old := by
    intro new old place here isRow adopts pending
    obtain ⟨old', here', isRow', created⟩ := place.created adopts
    obtain rfl := Table.row_unique here here' (isRow.trans isRow'.symm)
    exact adoptionRank_pending place.pending pending created.symm (place.isRow.trans isRow.symm)
  intro other there waits rival
  rcases placed row member with ⟨before, _⟩ | new
  · have former : res' ∈ s.reservations := by
      rcases List.mem_append.mp reserved with old | last
      · exact old
      · obtain rfl := List.mem_singleton.mp last
        exact absurd holds (entitled.unused row before)
    have leads := capped.leads row before res' former holds
    rcases placed other there with ⟨before', _⟩ | new'
    · exact leads other before' waits rival
    · have identity : Identity res.request row := by
        apply (Identity.rivals new'.toIdentity entitled.asks).mp
        obtain ⟨one, two, owner, provider, name⟩ := rival
        exact ⟨two, one, owner.symm, provider.symm, name.symm⟩
      have pending := capped.pending row before (by simp [holds])
      obtain ⟨adopts, old, here, isRow, waits', _⟩ :=
        entitled.first row before ((adopts_true_iff entitled.asks).mpr ⟨identity, pending⟩)
      rw [rank other old new' here isRow adopts waits']
      apply leads old here waits'
      exact (Identity.rivals identity entitled.asks).mpr (entitled.adopted adopts old here isRow)
  · rcases placed other there with ⟨before', _⟩ | new'
    · have identity := (Identity.rivals new.toIdentity entitled.asks).mp rival
      obtain ⟨adopts, old, here, isRow, waits', earlier⟩ :=
        entitled.first other before' ((adopts_true_iff entitled.asks).mpr ⟨identity, waits⟩)
      rw [rank row old new here isRow adopts waits']
      exact earlier
    · obtain rfl := Table.row_unique member there (new.isRow.trans new'.isRow.symm)
      exact le_refl _

theorem Entitled.capped {adopting : Bool} (entitled : Entitled settings q i s res adopting)
    (capped : Capped settings project s) (now : Instant) :
    Capped settings project (s.reserving res adopting now) := by
  have known : res.attempt < s.nextId := by
    by_contra above
    have none := capped.fresh res.attempt (Nat.le_of_not_lt above)
    rw [entitled.issued] at none
    cases none
  rcases @claimed_rows s res adopting now entitled.adopted with same | placed
  · have whole : s.claimed res adopting now =
        { s with catalog := (s.claimed res adopting now).catalog } := by
      cases adopting <;> rfl
    rw [State.reserving, whole, same]
    exact { capped with
      leads := by
        intro row member res' reserved holds
        rcases List.mem_append.mp reserved with old | last
        · exact capped.leads row member res' old holds
        · obtain rfl := List.mem_singleton.mp last
          exact absurd holds (entitled.unused row member) }
  · refine ⟨?_, ?_, ?_, ?_, ?_, ?_, ?_⟩
    · cases adopting <;> exact capped.fresh
    · intro row member a holds
      have later : s.nextId = (s.reserving res adopting now).nextId := by
        cases adopting <;> rfl
      rw [← later]
      rcases placed row member with ⟨old, _⟩ | new
      · exact capped.attempts row old a holds
      · obtain rfl := Option.some.inj (new.attempt.symm.trans holds)
        exact known
    · intro row member holds
      rcases placed row member with ⟨old, _⟩ | new
      · exact capped.pending row old holds
      · exact new.pending
    · by_cases mine : project = q
      · subst mine
        exact (entitled.usage placed).1
      · exact Nat.le_trans (entitled.usage_other placed mine).1 capped.count
    · by_cases mine : project = q
      · subst mine
        exact (entitled.usage placed).2
      · exact Nat.le_trans (entitled.usage_other placed mine).2 capped.bytes
    · intro row member res' reserved holds
      exact entitled.leads capped placed member reserved holds
    · cases adopting <;> exact capped.readings

theorem Entitled.rely {adopting : Bool} (entitled : Entitled settings q i s res adopting)
    (now : Instant) {j : Nat} (other : j ≠ i) : QuotaRely j s (s.reserving res adopting now) := by
  have origin : ∀ row ∈ (s.reserving res adopting now).catalog.rows,
      row ∈ s.catalog.rows ∨ Placed s res adopting row := by
    intro row member
    rcases @claimed_rows s res adopting now entitled.adopted with same | placed
    · exact .inl (same ▸ member)
    · rcases placed row member with ⟨old, _⟩ | new
      · exact .inl old
      · exact .inr new
  refine ⟨?_, ?_, ?_, ?_, ?_⟩
  · cases adopting <;> exact fun _ known => known
  · intro a known row member holds
    rcases origin row member with old | new
    · exact ⟨row, old, holds⟩
    · obtain rfl := Option.some.inj (new.attempt.symm.trans holds)
      rw [entitled.issued] at known
      exact absurd (Option.some.inj known).symm other
  · cases adopting <;> exact fun _ held => held
  · intro row held
    have elsewhere : row ≠ res.row := by
      rintro rfl
      exact other (rowFree_other entitled.free held)
    refine ⟨?_, find_claimed_other elsewhere⟩
    cases adopting <;> exact held
  · intro q' held row member owned
    rcases origin row member with old | new
    · exact .inl old
    · have same : some q = some q' := entitled.owner.symm.trans (new.owner.symm.trans owned.2)
      obtain rfl := Option.some.inj same
      rw [entitled.held] at held
      exact absurd (Option.some.inj held).symm other

theorem quota_reserve {adopting : Bool} (entitled : Entitled settings q i s res adopting)
    (capped : Capped settings project s) (now : Instant) :
    Calls.Allows (quotaDiscipline settings project) i s (s.reserve i res adopting now) := by
  have reserving : Calls.Allows (quotaDiscipline settings project) i s
      (s.reserving res adopting now) :=
    ⟨entitled.capped capped now, fun j other => entitled.rely now other⟩
  exact allows_noRows reserving (noRows_endTransaction _ i)

end Reserve

section Choosing

variable {settings : Settings} {project q : String} {i : Nat} {s t : State}
  {request : PublishRequest}

structure Asks (request : PublishRequest) (q : String) : Prop where
  visibility : request.visibility = .privateImage
  owner : request.owner = some q

theorem QuotaRely.adoptable (rely : QuotaRely i s t) (asks : Asks request q)
    (held : s.projectLocks q = some i) {row : CatalogRow} (member : row ∈ t.catalog.rows)
    (adopts : request.adopts true row = true) : row ∈ s.catalog.rows := by
  obtain ⟨identity, pending⟩ := (adopts_true_iff asks.visibility).mp adopts
  have owned : row.OwnedBy q :=
    ⟨identity.visibility.trans asks.visibility, identity.owner.trans asks.owner⟩
  rcases rely.shrinks q held row member owned with before | ⟨registered, _⟩
  · exact before
  · rw [pending] at registered
    cases registered

structure Awaiting (i : Nat) (q : String) (request : PublishRequest) (rows : List CatalogRow)
    (s : State) : Prop where
  held : s.projectLocks q = some i
  sorted : rows.Pairwise (fun a b => adoptionRank a ≤ adoptionRank b)
  distinct : (rows.map CatalogRow.id).Nodup
  covers : ∀ row ∈ s.catalog.rows, request.adopts true row = true → row ∈ rows

structure Chosen (i : Nat) (q : String) (request : PublishRequest) (adopting : Option CatalogRow)
    (s : State) : Prop where
  held : s.projectLocks q = some i
  locked : ∀ row, adopting = some row → Locked i (.adoption request true) row s
  first : ∀ row ∈ s.catalog.rows, request.adopts true row = true →
    ∃ chosen, adopting = some chosen ∧ adoptionRank chosen ≤ adoptionRank row

theorem Awaiting.rely {rows : List CatalogRow} (awaiting : Awaiting i q request rows s)
    (asks : Asks request q) (rely : QuotaRely i s t) : Awaiting i q request rows t where
  held := rely.project q awaiting.held
  sorted := awaiting.sorted
  distinct := awaiting.distinct
  covers := fun row member adopts =>
    awaiting.covers row (rely.adoptable asks awaiting.held member adopts) adopts

theorem Locked.quotaRely {selection : Selection} {row : CatalogRow} (locked : Locked i selection row s)
    (rely : QuotaRely i s t) : Locked i selection row t := by
  obtain ⟨lock, same⟩ := rely.rows row.id locked.lock
  exact ⟨lock, same.trans locked.found, locked.selected⟩

theorem Chosen.rely {adopting : Option CatalogRow} (chosen : Chosen i q request adopting s)
    (asks : Asks request q) (rely : QuotaRely i s t) : Chosen i q request adopting t where
  held := rely.project q chosen.held
  locked := fun row isRow => (chosen.locked row isRow).quotaRely rely
  first := fun row member adopts =>
    chosen.first row (rely.adoptable asks chosen.held member adopts) adopts

theorem quota_demand {r : Request} {e : ImageError} {Q : r.Answer → State → Prop}
    (harmless : r.harmless = true)
    (next : ∀ t a u, Capped settings project t → QuotaRely i s t →
      t.serve settings i r = some (a, u) → Q a u) :
    Calls.wp (quotaDiscipline settings project) i Q Calls.anything (Calls.demand e r : ImageProgram _) s := by
  apply Calls.wp_demand
  · exact fun _ _ _ => trivial
  · intro t capped rely _ a u served
    exact ⟨quota_harmless harmless capped served, trivial, next t a u capped rely served⟩

theorem Awaiting.tail {row : CatalogRow} {rows : List CatalogRow}
    (awaiting : Awaiting i q request (row :: rows) s)
    (refused : ∀ found, Table.find s.catalog row.id = some found →
      (Selection.adoption request true).holds found = false) : Awaiting i q request rows s where
  held := awaiting.held
  sorted := (List.pairwise_cons.mp awaiting.sorted).2
  distinct := (List.nodup_cons.mp awaiting.distinct).2
  covers := by
    intro other member adopts
    rcases List.mem_cons.mp (awaiting.covers other member adopts) with rfl | later
    · have refusal := refused other (Table.find_of_mem member)
      rw [Selection.holds, adopts] at refusal
      cases refusal
    · exact later

theorem Awaiting.chosen {row found : CatalogRow} {rows : List CatalogRow}
    (awaiting : Awaiting i q request (row :: rows) s)
    (locked : Locked i (.adoption request true) found s) (isRow : found.id = row.id) :
    Chosen i q request (some found) s := by
  have there := awaiting.covers found (Table.find_mem locked.found) locked.selected
  have same : found = row := by
    rcases List.mem_cons.mp there with same | later
    · exact same
    · exact absurd (List.mem_map_of_mem later) (isRow ▸ (List.nodup_cons.mp awaiting.distinct).1)
  subst same
  refine ⟨awaiting.held, ?_, ?_⟩
  · rintro _ ⟨rfl⟩
    exact locked
  · intro other member adopts
    refine ⟨found, rfl, ?_⟩
    rcases List.mem_cons.mp (awaiting.covers other member adopts) with rfl | later
    · exact le_refl _
    · exact (List.pairwise_cons.mp awaiting.sorted).1 other later

theorem quota_lockFirst (asks : Asks request q) {rows : List CatalogRow}
    (awaiting : Awaiting i q request rows s) :
    Calls.wp (quotaDiscipline settings project) i (fun adopting t => Chosen i q request adopting t)
      Calls.anything (lockFirst (.adoption request true) (rows.map CatalogRow.id)) s := by
  induction rows generalizing s with
  | nil =>
    refine ⟨awaiting.held, ?_, ?_⟩
    · simp
    · intro row member adopts
      cases awaiting.covers row member adopts
  | cons row rows ih =>
    rw [List.map_cons, lockFirst, Calls.wp_bind]
    apply quota_demand rfl
    intro t answer u _ rely served
    have known := awaiting.rely asks rely
    obtain ⟨⟨locks, rfl⟩, found, refused⟩ := lockRow_spec served
    cases answer with
    | none =>
      apply ih
      have rest := known.tail (refused rfl)
      exact ⟨rest.held, rest.sorted, rest.distinct, rest.covers⟩
    | some row' =>
      obtain ⟨locked, isRow⟩ := found row' rfl
      have still : Awaiting i q request (row :: rows) { t with rowLocks := locks } :=
        ⟨known.held, known.sorted, known.distinct, known.covers⟩
      exact still.chosen locked isRow

theorem ordered_perm (rows : List CatalogRow) : (State.ordered rows).Perm rows :=
  List.perm_insertionSort _ rows

instance : Std.Total (fun a b : CatalogRow => adoptionRank a ≤ adoptionRank b) where
  total := fun a b => le_total (adoptionRank a) (adoptionRank b)

instance : IsTrans CatalogRow (fun a b => adoptionRank a ≤ adoptionRank b) where
  trans := fun _ _ _ first second => le_trans first second

theorem ordered_sorted (rows : List CatalogRow) :
    (State.ordered rows).Pairwise (fun a b => adoptionRank a ≤ adoptionRank b) :=
  List.pairwise_insertionSort _ rows

theorem quota_choose (asks : Asks request q) (held : s.projectLocks q = some i) :
    Calls.wp (quotaDiscipline settings project) i (fun adopting t => Chosen i q request adopting t)
      Calls.anything (selectForUpdate (.adoption request true)) s := by
  rw [selectForUpdate, Calls.wp_bind]
  apply quota_demand rfl
  intro t ids u _ rely served
  obtain ⟨rfl, rfl⟩ := Prod.mk.inj (Option.some.inj served)
  apply quota_lockFirst asks
  refine ⟨rely.project q held, ordered_sorted _, ?_, ?_⟩
  · rw [((ordered_perm _).map _).nodup_iff]
    exact t.catalog.distinct.sublist (List.filter_sublist.map _)
  · intro row member adopts
    rw [(ordered_perm _).mem_iff]
    exact List.mem_filter.mpr ⟨member, adopts⟩

end Choosing

section Reading

variable {settings : Settings} {project q : String} {i : Nat} {s t : State}
  {request : PublishRequest} {adopting : Option CatalogRow} {newBytes : Nat}

theorem charged_of_adopts (asks : Asks request q) {row : CatalogRow}
    (adopts : request.adopts true row = true) : row.charged q = true := by
  obtain ⟨identity, pending⟩ := (adopts_true_iff asks.visibility).mp adopts
  simp [CatalogRow.charged, identity.visibility, identity.owner, asks.visibility, asks.owner, pending]

theorem fair_of_chosen (capped : Capped settings q s) (asks : Asks request q)
    (chosen : Chosen i q request adopting s) :
    Fair settings ⟨⟨q, request, newBytes⟩, adopting.map CatalogRow.id, s.catalog, s.reservations⟩ := by
  intro row member adopts reserved size
  change row ∈ s.catalog.rows at member
  have leads : Leads s.catalog row := by
    rcases reserved with ⟨res, isReserved, holds⟩ | leads
    · exact capped.leads row member res isReserved holds
    · exact leads
  obtain ⟨found, isChosen, earlier⟩ := chosen.first row member adopts
  subst isChosen
  have locked := chosen.locked found rfl
  have there := Table.find_mem locked.found
  obtain ⟨identity, pending⟩ := (adopts_true_iff asks.visibility).mp adopts
  obtain ⟨identity', pending'⟩ := (adopts_true_iff asks.visibility).mp locked.selected
  have later := leads found there pending'
    ((Identity.rivals identity asks.visibility).mpr identity')
  obtain rfl := Table.row_unique member there (adoptionRank_id (le_antisymm later earlier))
  obtain ⟨count, bytes⟩ := usage_split member (charged_of_adopts asks adopts)
  have capCount := capped.count
  have capBytes := capped.bytes
  change row.sizeBytes = newBytes at size
  change quotaDenial settings q (projectUsage s.catalog q (some row.id)).1
    (projectUsage s.catalog q (some row.id)).2 newBytes = none
  rw [quotaDenial, if_neg (by omega), if_neg (by omega)]

theorem quota_reading (capped : Capped settings project s) (asks : Asks request q)
    (chosen : Chosen i q request adopting s) :
    Calls.Allows (quotaDiscipline settings project) i s { s with
      readings := s.readings ++
        [⟨⟨q, request, newBytes⟩, adopting.map CatalogRow.id, s.catalog, s.reservations⟩] } := by
  constructor
  · exact { capped with
      readings := by
        intro reading member isProject
        rcases List.mem_append.mp member with old | new
        · exact capped.readings reading old isProject
        · obtain rfl := List.mem_singleton.mp new
          obtain rfl : q = project := isProject
          exact fair_of_chosen capped asks chosen }
  · intro j other
    exact { QuotaRely.refl j s with }

structure Budgeted (i : Nat) (q : String) (request : PublishRequest) (adopting : Option CatalogRow)
    (usage : Nat × Nat) (s : State) : Prop extends Chosen i q request adopting s where
  count : (projectUsage s.catalog q (adopting.map CatalogRow.id)).1 ≤ usage.1
  bytes : (projectUsage s.catalog q (adopting.map CatalogRow.id)).2 ≤ usage.2

theorem Budgeted.rely {usage : Nat × Nat} (budgeted : Budgeted i q request adopting usage s)
    (asks : Asks request q) (rely : QuotaRely i s t) : Budgeted i q request adopting usage t := by
  have fewer := @usage_le t.catalog s.catalog q (adopting.map CatalogRow.id)
    (adopting.map CatalogRow.id) (by
      intro row member charged others
      have owned : row.OwnedBy q := by
        simp only [CatalogRow.charged, Bool.and_eq_true, beq_iff_eq] at charged
        exact charged.1
      rcases rely.shrinks q budgeted.held row member owned with before | flipped
      · exact ⟨row, before, charged, others, rfl, rfl⟩
      · obtain ⟨_, old, there, pending, isRow, size, visibility, owner⟩ := flipped
        refine ⟨old, there, ?_, isRow ▸ others, isRow, size⟩
        simp [CatalogRow.charged, visibility, owner, owned.1, owned.2, pending])
  exact ⟨budgeted.toChosen.rely asks rely, Nat.le_trans fewer.1 budgeted.count,
    Nat.le_trans fewer.2 budgeted.bytes⟩

structure Armed (i : Nat) (q : String) (request : PublishRequest) (adopting : Option CatalogRow)
    (usage : Nat × Nat) (attempt : Uuid) (s : State) : Prop
    extends Budgeted i q request adopting usage s where
  issued : s.issued attempt = some i
  unused : ∀ row ∈ s.catalog.rows, row.attempt ≠ some attempt

theorem Armed.rely {usage : Nat × Nat} {attempt : Uuid}
    (armed : Armed i q request adopting usage attempt s) (asks : Asks request q)
    (rely : QuotaRely i s t) : Armed i q request adopting usage attempt t where
  toBudgeted := armed.toBudgeted.rely asks rely
  issued := rely.issued _ armed.issued
  unused := by
    intro row member holds
    obtain ⟨old, there, held⟩ := rely.attempts attempt armed.issued row member holds
    exact armed.unused old there held

theorem Armed.relock {usage : Nat × Nat} {attempt : Uuid}
    (armed : Armed i q request adopting usage attempt s) {locks : Uuid → Option Nat}
    (kept : ∀ row, s.rowLocks row = some i → locks row = some i) :
    Armed i q request adopting usage attempt { s with rowLocks := locks } := by
  refine ⟨⟨⟨armed.held, ?_, armed.first⟩, armed.count, armed.bytes⟩, armed.issued, armed.unused⟩
  intro row isRow
  have locked := armed.locked row isRow
  exact ⟨kept _ locked.lock, locked.found, locked.selected⟩

end Reading

section Uploading

variable {settings : Settings} {project q : String} {i : Nat} {s t : State}
  {request : PublishRequest} {adopting : Option CatalogRow} {newBytes : Nat} {usage : Nat × Nat}
  {attempt : Uuid} {principal : Option String}

theorem lockRow_keeps {selection : Selection} {row : Uuid} {answer : Option CatalogRow}
    (served : s.serve settings i (.lockRow selection row) = some (answer, t)) :
    ∃ locks, t = { s with rowLocks := locks } ∧
      ∀ other, s.rowLocks other = some i → locks other = some i := by
  rw [State.serve] at served
  split at served
  · split at served
    · obtain rfl := Calls.state_eq served
      refine ⟨_, rfl, ?_⟩
      intro other held
      by_cases same : other = row
      · subst same
        simp
      · rw [Function.update_of_ne same, held]
    · obtain rfl := Calls.state_eq served
      exact ⟨_, rfl, fun _ held => held⟩
  · cases served

/-- The rows that the reservation may take: the one that was chosen, or one that is only declared,
or a new one. -/
theorem Armed.entitled (armed : Armed i q request adopting usage attempt s) (asks : Asks request q)
    (count : usage.1 + 1 ≤ settings.maxCount) (bytes : usage.2 + newBytes ≤ settings.maxBytes)
    {row : Uuid} {adopts : Bool} (free : s.rowFree i row = true)
    (target : ∀ chosen, adopting = some chosen → adopts = true ∧ chosen.id = row)
    (existing : adopts = true → ∀ old ∈ s.catalog.rows, old.id = row → Identity request old) :
    Entitled settings q i s (reservation request newBytes principal attempt row) adopts where
  asks := asks.visibility
  owner := asks.owner
  held := armed.held
  free := free
  issued := armed.issued
  unused := armed.unused
  count := by
    have read := armed.count
    have budget : (projectUsage s.catalog q (some row)).1 ≤ usage.1 := by
      cases chosen : adopting with
      | some found =>
        rw [chosen, Option.map_some, (target found chosen).2] at read
        exact read
      | none =>
        rw [chosen, Option.map_none] at read
        refine Nat.le_trans (usage_le ?_).1 read
        exact fun r member charged _ => ⟨r, member, charged, by simp, rfl, rfl⟩
    exact Nat.le_trans (Nat.succ_le_succ budget) count
  bytes := by
    have read := armed.bytes
    have budget : (projectUsage s.catalog q (some row)).2 ≤ usage.2 := by
      cases chosen : adopting with
      | some found =>
        rw [chosen, Option.map_some, (target found chosen).2] at read
        exact read
      | none =>
        rw [chosen, Option.map_none] at read
        refine Nat.le_trans (usage_le ?_).2 read
        exact fun r member charged _ => ⟨r, member, charged, by simp, rfl, rfl⟩
    exact Nat.le_trans (Nat.add_le_add_right budget newBytes) bytes
  adopted := existing
  first := by
    intro other member waits
    obtain ⟨chosen, isChosen, earlier⟩ := armed.first other member waits
    obtain ⟨isTrue, isRow⟩ := target chosen isChosen
    have locked := armed.locked chosen isChosen
    have pending := ((adopts_true_iff asks.visibility).mp locked.selected).2
    exact ⟨isTrue, chosen, Table.find_mem locked.found, isRow, pending, earlier⟩

theorem quota_reserveRow (armed : Armed i q request adopting usage attempt s) (asks : Asks request q)
    (count : usage.1 + 1 ≤ settings.maxCount) (bytes : usage.2 + newBytes ≤ settings.maxBytes)
    {row : Uuid} {adopts : Bool} {now : Instant}
    (target : ∀ chosen, adopting = some chosen → adopts = true ∧ chosen.id = row)
    (existing : adopts = true → ∃ old selection, Locked i selection old s ∧ old.id = row ∧
      Identity request old) :
    Calls.wp (quotaDiscipline settings project) i Calls.anything Calls.anything (do
      database (.reserve (reservation request newBytes principal attempt row) adopts now)
      pure (reservation request newBytes principal attempt row)) s := by
  rw [Calls.wp_bind]
  apply Calls.wp_demand
  · exact fun _ _ _ => trivial
  · intro t capped rely _ a u served
    have known := armed.rely asks rely
    simp only [service, State.serve] at served
    split at served
    · rename_i free
      obtain rfl := Calls.state_eq served
      refine ⟨quota_reserve (known.entitled asks count bytes free target ?_) capped now, trivial,
        trivial⟩
      intro isTrue old member isRow
      obtain ⟨found, selection, locked, isFound, identity⟩ := existing isTrue
      have there := Table.find_mem (locked.quotaRely rely).found
      obtain rfl := Table.row_unique member there (isRow.trans isFound.symm)
      exact identity
    · cases served

theorem quota_lockOther (asks : Asks request q) (ids : List Uuid)
    (armed : Armed i q request none usage attempt s) :
    Calls.wp (quotaDiscipline settings project) i
      (fun found t => Armed i q request none usage attempt t ∧
        ∀ row, found = some row → Locked i (.adoption request false) row t)
      Calls.anything (lockFirst (.adoption request false) ids) s := by
  induction ids generalizing s with
  | nil => exact ⟨armed, by simp⟩
  | cons id rest ih =>
    rw [lockFirst, Calls.wp_bind]
    apply quota_demand rfl
    intro t answer u _ rely served
    obtain ⟨locks, same, kept⟩ := lockRow_keeps served
    have known := (armed.rely asks rely).relock kept
    rw [← same] at known
    cases answer with
    | none => exact ih known
    | some row =>
      refine ⟨known, ?_⟩
      rintro _ ⟨rfl⟩
      exact ((lockRow_spec served).2.1 row rfl).1

theorem Armed.head {found : CatalogRow} (armed : Armed i q request (some found) usage attempt s)
    (asks : Asks request q) : ∃ rest,
      (State.ordered (s.catalog.rows.filter (Selection.adoption request false).holds)).map
        CatalogRow.id = found.id :: rest := by
  have locked := armed.locked found rfl
  have pending := ((adopts_true_iff asks.visibility).mp locked.selected).2
  have there : found ∈ State.ordered
      (s.catalog.rows.filter (Selection.adoption request false).holds) := by
    rw [(ordered_perm _).mem_iff]
    exact List.mem_filter.mpr
      ⟨Table.find_mem locked.found, adopts_false_of_true asks.visibility locked.selected⟩
  have sorted := ordered_sorted (s.catalog.rows.filter (Selection.adoption request false).holds)
  have members : ∀ row ∈ State.ordered
      (s.catalog.rows.filter (Selection.adoption request false).holds),
      row ∈ s.catalog.rows ∧ request.adopts false row = true := by
    intro row member
    rw [(ordered_perm _).mem_iff] at member
    exact List.mem_filter.mp member
  cases shape : State.ordered
      (s.catalog.rows.filter (Selection.adoption request false).holds) with
  | nil =>
    rw [shape] at there
    cases there
  | cons first rest =>
    rw [shape] at there sorted members
    refine ⟨rest.map CatalogRow.id, ?_⟩
    rw [List.map_cons]
    congr 1
    have before : adoptionRank first ≤ adoptionRank found := by
      rcases List.mem_cons.mp there with rfl | later
      · exact le_refl _
      · exact (List.pairwise_cons.mp sorted).1 found later
    obtain ⟨member, adopts⟩ := members first List.mem_cons_self
    have waits : first.state = .pending := by
      by_contra declared
      have order := Prod.Lex.monotone_fst _ _ before
      simp [adoptionRank, declared, pending] at order
    obtain ⟨chosen, isChosen, after⟩ := armed.first first member
      ((adopts_true_iff asks.visibility).mpr ⟨identity_of_adopts adopts, waits⟩)
    obtain rfl := Option.some.inj isChosen
    exact adoptionRank_id (le_antisymm before after)

theorem quota_adopt (armed : Armed i q request adopting usage attempt s) (asks : Asks request q)
    (count : usage.1 + 1 ≤ settings.maxCount) (bytes : usage.2 + newBytes ≤ settings.maxBytes)
    (now : Instant) :
    Calls.wp (quotaDiscipline settings project) i Calls.anything Calls.anything
      (adoptOrInsertPending request newBytes principal attempt now) s := by
  rw [adoptOrInsertPending, Calls.wp_bind, selectForUpdate, Calls.wp_bind]
  apply quota_demand rfl
  intro t ids u _ rely served
  obtain ⟨rfl, rfl⟩ := Prod.mk.inj (Option.some.inj served)
  have known := armed.rely asks rely
  cases adopting with
  | some found =>
    obtain ⟨rest, isHead⟩ := known.head asks
    rw [isHead, lockFirst, Calls.wp_bind]
    apply quota_demand rfl
    intro v answer w _ rely served
    have still := known.rely asks rely
    have locked := still.locked found rfl
    have selected := adopts_false_of_true asks.visibility locked.selected
    obtain ⟨locks, same, kept⟩ := lockRow_keeps served
    have after := still.relock kept
    rw [← same] at after
    obtain ⟨_, present, absent⟩ := lockRow_spec served
    cases answer with
    | none =>
      have refused := absent rfl found locked.found
      rw [Selection.holds, selected] at refused
      cases refused
    | some row =>
      obtain ⟨lockedRow, isRow⟩ := present row rfl
      refine quota_reserveRow after asks count bytes ?_ ?_
      · rintro _ ⟨rfl⟩
        exact ⟨rfl, isRow.symm⟩
      · intro _
        exact ⟨row, _, lockedRow, rfl, identity_of_adopts lockedRow.selected⟩
  | none =>
    refine Calls.wp_mono (quota_lockOther asks _ known) ?_ (fun _ _ raised => raised)
    rintro answer v ⟨after, locked⟩
    cases answer with
    | some row =>
      refine quota_reserveRow after asks count bytes (by simp) ?_
      intro _
      exact ⟨row, _, locked row rfl, rfl, identity_of_adopts (locked row rfl).selected⟩
    | none =>
      rw [Calls.wp_bind]
      apply quota_demand rfl
      intro w row x capped rely served
      have still := after.rely asks rely
      have move := noRows_of_silent rfl served
      obtain rfl := Calls.state_eq served
      have ready : Armed i q request none usage attempt
          { w with nextId := w.nextId + 1, issued := Function.update w.issued w.nextId (some i) } :=
        ⟨⟨⟨still.held, by simp, still.first⟩, still.count, still.bytes⟩,
          move.issued _ i still.issued capped.fresh, still.unused⟩
      exact quota_reserveRow ready asks count bytes (by simp) (by simp)

theorem quota_reservePublish (budgeted : Budgeted i q request adopting usage s)
    (asks : Asks request q) (count : usage.1 + 1 ≤ settings.maxCount)
    (bytes : usage.2 + newBytes ≤ settings.maxBytes) (now : Instant) :
    Calls.wp (quotaDiscipline settings project) i Calls.anything Calls.anything
      (reservePublish request newBytes principal (pure now)) s := by
  unfold reservePublish
  split
  · trivial
  · split
    · trivial
    · rw [Calls.wp_bind]
      apply quota_demand rfl
      intro t attempt u capped rely served
      have known := budgeted.rely asks rely
      obtain ⟨rfl, rfl⟩ := Prod.mk.inj (Option.some.inj served)
      have ready : Armed i q request adopting usage t.nextId
          { t with nextId := t.nextId + 1, issued := Function.update t.issued t.nextId (some i) } := by
        refine ⟨⟨⟨known.held, ?_, known.first⟩, known.count, known.bytes⟩, by simp, ?_⟩
        · intro row isRow
          have locked := known.locked row isRow
          exact ⟨locked.lock, locked.found, locked.selected⟩
        · intro row member holds
          exact Nat.lt_irrefl _ (capped.attempts row member _ holds)
      exact quota_adopt ready asks count bytes now

theorem quota_only {α : Type} {p : ImageProgram α} (only : Calls.Only (fun r => r.harmless = true) p) :
    Calls.wp (quotaDiscipline settings project) i Calls.anything Calls.anything p s := by
  apply Calls.wp_only (K := fun _ => True) only
  · intro r t harmless capped _ _ a u served
    exact ⟨quota_harmless harmless capped served, trivial⟩
  · exact fun _ _ _ _ => trivial
  · exact fun _ _ _ => trivial
  · trivial

theorem quota_deny {α : Type} (e : ImageError) :
    Calls.wp (quotaDiscipline settings project) i Calls.anything Calls.anything (do
      database .endTransaction
      Calls.throw e : ImageProgram α) s :=
  quota_only (Calls.only_bind (Calls.only_demand rfl) (fun _ => Calls.only_throw e))

theorem quota_reserveUnderQuota (asks : Asks request q) (actor : String) :
    Calls.wp (quotaDiscipline settings project) i Calls.anything Calls.anything
      (reserveUnderQuota settings request q actor newBytes) s := by
  rw [reserveUnderQuota, Calls.wp_bind]
  apply quota_demand rfl
  intro _ now _ _ _ _
  rw [Calls.wp_bind]
  apply quota_demand rfl
  intro t _ u _ _ served
  have held : u.projectLocks q = some i := by
    rw [State.serve] at served
    split at served
    · obtain rfl := Calls.state_eq served
      simp
    · cases served
  rw [Calls.wp_bind]
  apply quota_demand rfl
  intro v taken w _ rely served
  obtain rfl := Calls.state_eq served
  cases taken with
  | true => exact quota_deny _
  | false =>
    change Calls.wp _ i _ _ (selectForUpdate (.adoption request true) >>= _) _
    rw [Calls.wp_bind]
    refine Calls.wp_mono (quota_choose asks (rely.project q held)) ?_ (fun _ _ raised => raised)
    intro adopting x chosen
    rw [Calls.wp_bind]
    apply Calls.wp_demand
    · exact fun _ _ _ => trivial
    · intro y capped rely _ usage z served
      have known := chosen.rely asks rely
      obtain ⟨rfl, rfl⟩ := Prod.mk.inj (Option.some.inj served)
      refine ⟨quota_reading capped asks known, trivial, ?_⟩
      split
      · rename_i passes
        rw [quotaDenial] at passes
        split at passes
        · cases passes
        · rename_i count
          split at passes
          · cases passes
          · rename_i bytes
            have budgeted : Budgeted i q request adopting
                (projectUsage y.catalog q (adopting.map CatalogRow.id)) { y with
                  readings := y.readings ++ [⟨⟨q, request, newBytes⟩, adopting.map CatalogRow.id,
                    y.catalog, y.reservations⟩] } := by
              refine ⟨⟨known.held, ?_, known.first⟩, Nat.le_refl _, Nat.le_refl _⟩
              intro row isRow
              have locked := known.locked row isRow
              exact ⟨locked.lock, locked.found, locked.selected⟩
            exact quota_reservePublish budgeted asks (Nat.le_of_not_lt count)
              (Nat.le_of_not_lt bytes) now
      · exact quota_deny _

theorem only_writePublishObject (res : PublishReservation) (data : Bytes) :
    Calls.Only (fun r => r.harmless = true) (writePublishObject settings res data) := by
  unfold writePublishObject
  split
  · trivial
  · refine Calls.only_bind (Calls.only_demand rfl) ?_
    intro accepted
    cases accepted with
    | false => trivial
    | true =>
      refine Calls.only_bind (Calls.only_demand rfl) ?_
      intro head
      refine Calls.only_bind ?_ ?_
      · unfold headGate
        split
        · trivial
        · split <;> trivial
      · intro _
        unfold writeConfigBestEffort
        split
        · refine Calls.only_bind (Calls.only_ask rfl) ?_
          intro answer
          split
          · refine Calls.only_bind (Calls.only_ask rfl) ?_
            intro answer
            split <;> trivial
          · trivial
        · trivial

theorem only_finishPublish (res : PublishReservation) (configWritten : Bool) :
    Calls.Only (fun r => r.harmless = true) (finishPublish res configWritten) := by
  refine Calls.only_bind (Calls.only_demand rfl) ?_
  intro answer
  cases answer <;> trivial

theorem only_publicationFence {α : Type} {body : ImageProgram α} (res : PublishReservation)
    (inside : Calls.Only (fun r => r.harmless = true) body) :
    Calls.Only (fun r => r.harmless = true) (publicationFence res body) := by
  refine Calls.only_bind (Calls.only_demand rfl) ?_
  intro _
  refine Calls.only_ensure (Calls.only_bind (Calls.only_demand rfl) ?_) (Calls.only_demand rfl)
  intro owns
  cases owns with
  | false => trivial
  | true => exact inside

theorem quota_publishUnderQuota (asks : Asks request q) (actor : String) (source : Bytes) :
    Calls.wp (quotaDiscipline settings project) i Calls.anything Calls.anything
      (publishUnderQuota settings request q actor source) s := by
  rw [publishUnderQuota, Calls.wp_bind]
  refine Calls.wp_mono (quota_reserveUnderQuota asks actor) ?_ (fun _ _ raised => raised)
  intro res t _
  apply quota_only
  apply only_publicationFence
  refine Calls.only_bind (only_writePublishObject res source) ?_
  intro configWritten
  refine Calls.only_bind (Calls.only_demand rfl) ?_
  intro _
  refine Calls.only_bind (Calls.only_demand rfl) ?_
  intro _
  exact only_finishPublish res configWritten

theorem quota_registerPrivateUpload (upload : PrivateUploadRequest) (now : Instant) :
    Calls.wp (quotaDiscipline settings project) i Calls.anything Calls.anything
      (registerPrivateUpload settings upload now) s := by
  unfold registerPrivateUpload
  split
  · trivial
  · rw [Calls.wp_bind]
    apply quota_demand rfl
    intro _ head t _ _ _
    cases head with
    | none => trivial
    | some head =>
      dsimp only
      split
      · trivial
      · rw [Calls.wp_bind]
        apply quota_demand rfl
        intro _ data t _ _ _
        cases data with
        | none => trivial
        | some data =>
          dsimp only
          split
          · trivial
          · exact quota_publishUnderQuota ⟨rfl, rfl⟩ _ _

end Uploading

section Repairing

variable {settings : Settings} {project : String} {i : Nat} {s : State} {entry : CatalogRow}
  {selection : Selection}

theorem only_conclude {terminal : Bool} : Calls.Only (fun r => r.harmless = true) (do
    database .endTransaction
    pure terminal : ImageProgram Bool) :=
  Calls.only_bind (Calls.only_demand rfl) (fun _ => Calls.only_pure terminal)

theorem only_deleteRow (row : Uuid) : Calls.Only (fun r => r.harmless = true) (do
    database (.deleteRow row)
    pure true : ImageProgram Bool) :=
  Calls.only_bind (Calls.only_demand rfl) (fun _ => Calls.only_pure true)

theorem quota_registerEntry (locked : Locked i selection entry s) (pending : entry.state = .pending)
    (clearConfig : Bool) :
    Calls.wp (quotaDiscipline settings project) i Calls.anything Calls.anything
      (registerEntry entry clearConfig) s := by
  rw [registerEntry, Calls.wp_bind]
  apply Calls.wp_demand
  · exact fun _ _ _ => trivial
  · intro t capped rely _ answer u served
    have known := locked.quotaRely rely
    have free : t.rowFree i entry.id = true := by simp [State.rowFree, known.lock]
    simp only [service, State.serve, free, if_true] at served
    have allowed := quota_registerRow capped known.found pending free clearConfig
    rw [Option.some.inj served] at allowed
    refine ⟨allowed, trivial, ?_⟩
    cases answer <;> trivial

theorem quota_recoverPending (locked : Locked i selection entry s)
    (pending : entry.state = .pending) :
    Calls.wp (quotaDiscipline settings project) i Calls.anything Calls.anything
      (recoverPending entry) s := by
  rw [recoverPending, Calls.wp_bind]
  unfold configAbsent
  split
  · rw [Calls.wp_bind]
    apply quota_demand rfl
    intro t head u _ rely served
    obtain rfl := Calls.state_eq served
    exact quota_registerEntry (locked.quotaRely rely) pending _
  · exact quota_registerEntry locked pending _

theorem only_reclaimInvalid (key : ImageKey) (version : Nat) :
    Calls.Only (fun r => r.harmless = true) (reclaimInvalid entry key version) := by
  refine Calls.only_bind (Calls.only_demand rfl) ?_
  intro _
  refine Calls.only_bind (Calls.only_demand rfl) ?_
  intro head
  cases head with
  | none => exact only_deleteRow entry.id
  | some _ => exact only_conclude

theorem quota_repairLocked (locked : Locked i selection entry s) :
    Calls.wp (quotaDiscipline settings project) i Calls.anything Calls.anything
      (repairLocked entry) s := by
  unfold repairLocked
  split
  · trivial
  · rename_i key _
    rw [Calls.wp_bind]
    apply quota_demand rfl
    intro t head u _ rely served
    obtain rfl := Calls.state_eq served
    cases state : entry.state with
    | registered =>
      apply quota_only
      dsimp only
      unfold repairRegisteredCandidate
      split
      · exact only_conclude
      · exact only_deleteRow entry.id
    | pending =>
      dsimp only
      unfold repairPendingCandidate
      split
      · exact quota_only (only_deleteRow entry.id)
      · split
        · exact quota_recoverPending (locked.quotaRely rely) state
        · exact quota_only (only_reclaimInvalid key _)
    | defined => exact quota_only only_conclude

theorem quota_lockFirst_any {Q : Option CatalogRow → State → Prop} (ids : List Uuid)
    (absent : ∀ t, Q none t) (present : ∀ row t, Locked i selection row t → Q (some row) t) :
    Calls.wp (quotaDiscipline settings project) i Q Calls.anything (lockFirst selection ids) s := by
  induction ids generalizing s with
  | nil => exact absent s
  | cons id rest ih =>
    rw [lockFirst, Calls.wp_bind]
    apply quota_demand rfl
    intro t answer u _ _ served
    cases answer with
    | none => exact ih
    | some row => exact present row u ((lockRow_spec served).2.1 row rfl).1

theorem quota_repairImageCandidate (grace : Duration) (candidate : Candidate) :
    Calls.wp (quotaDiscipline settings project) i Calls.anything Calls.anything
      (repairImageCandidate grace candidate) s := by
  rw [repairImageCandidate, Calls.wp_bind]
  apply quota_demand rfl
  intro _ now _ _ _ _
  rw [Calls.wp_bind]
  apply quota_demand rfl
  intro _ taken _ _ _ _
  cases taken with
  | false => exact quota_only only_conclude
  | true =>
    change Calls.wp _ i _ _ (selectForUpdate (.repair candidate (now - grace)) >>= _) _
    rw [Calls.wp_bind, selectForUpdate, Calls.wp_bind]
    apply quota_demand rfl
    intro _ ids _ _ _ _
    apply quota_lockFirst_any
    · exact fun t => quota_only only_conclude
    · exact fun row t locked => quota_repairLocked locked

theorem quota_repairAll (grace : Duration) (candidates : List Candidate) :
    Calls.wp (quotaDiscipline settings project) i Calls.anything Calls.anything
      (repairAll grace candidates) s := by
  induction candidates generalizing s with
  | nil => trivial
  | cons candidate rest ih =>
    rw [repairAll, Calls.wp_bind, Calls.wp_rescue]
    have others : ∀ (terminal : Bool) s,
        Calls.wp (quotaDiscipline settings project) i Calls.anything Calls.anything
          (do
            let others ← repairAll grace rest
            pure (others + if terminal then 1 else 0)) s := by
      intro terminal s
      rw [Calls.wp_bind]
      exact Calls.wp_mono ih (fun _ _ _ => trivial) (fun _ _ raised => raised)
    refine Calls.wp_mono (quota_repairImageCandidate grace candidate)
      (fun terminal t _ => others terminal t) ?_
    intro e t _
    unfold skipCategorized
    split
    · exact Calls.wp_mono (quota_only only_conclude) (fun terminal t _ => others terminal t)
        (fun _ _ raised => raised)
    · trivial

theorem quota_repairDanglingImages (grace : Duration) :
    Calls.wp (quotaDiscipline settings project) i Calls.anything Calls.anything
      (repairDanglingImages grace) s := by
  rw [repairDanglingImages, Calls.wp_bind]
  apply quota_demand rfl
  intro _ now _ _ _ _
  rw [Calls.wp_bind]
  apply quota_demand rfl
  intro _ candidates _ _ _ _
  rw [Calls.wp_bind]
  apply quota_demand rfl
  intro _ _ _ _ _ _
  exact quota_repairAll grace candidates

end Repairing

section Taking

theorem only_lockFirst (selection : Selection) (ids : List Uuid) :
    Calls.Only (fun r => r.harmless = true) (lockFirst selection ids) := by
  induction ids with
  | nil => trivial
  | cons id rest ih =>
    refine Calls.only_bind (Calls.only_demand rfl) ?_
    intro answer
    cases answer with
    | none => exact ih
    | some row => trivial

theorem only_selectForUpdate (selection : Selection) :
    Calls.Only (fun r => r.harmless = true) (selectForUpdate selection) :=
  Calls.only_bind (Calls.only_demand rfl) (fun ids => only_lockFirst selection ids)

theorem only_deleteVersions (key : Key) (versions : List Nat) :
    Calls.Only (fun r => r.harmless = true) (deleteVersions key versions) := by
  induction versions with
  | nil => trivial
  | cons version rest ih => exact Calls.only_bind (Calls.only_demand rfl) (fun _ => ih)

theorem only_deleteRetired (key : Option ImageKey) :
    Calls.Only (fun r => r.harmless = true) (deleteRetired key) := by
  cases key with
  | none => trivial
  | some key =>
    refine Calls.only_rescue ?_ ?_
    · refine Calls.only_bind (Calls.only_demand rfl) ?_
      intro batch
      refine Calls.only_bind (only_deleteVersions _ _) ?_
      intro _
      unfold deleteLatest
      split
      · exact Calls.only_bind (only_deleteVersions _ _) (fun _ => trivial)
      · trivial
    · intro e
      cases e <;> trivial

theorem only_expireOnePrivateImage (referenced : Uuid → Bool) (candidate : Expiry) :
    Calls.Only (fun r => r.harmless = true) (expireOnePrivateImage referenced candidate) := by
  refine Calls.only_bind (Calls.only_demand rfl) ?_
  intro now
  refine Calls.only_bind (only_selectForUpdate _) ?_
  intro found
  cases found with
  | none => exact only_conclude
  | some row =>
    dsimp only
    split
    · exact only_conclude
    · refine Calls.only_bind (only_deleteRetired _) ?_
      intro image
      refine Calls.only_bind (only_deleteRetired _) ?_
      intro config
      split
      · exact only_deleteRow row.id
      · exact only_conclude

theorem only_expireAll (referenced : Uuid → Bool) (candidates : List Expiry) :
    Calls.Only (fun r => r.harmless = true) (expireAll referenced candidates) := by
  induction candidates with
  | nil => trivial
  | cons candidate rest ih =>
    refine Calls.only_bind (only_expireOnePrivateImage referenced candidate) ?_
    intro pruned
    exact Calls.only_bind ih (fun _ => trivial)

theorem only_deleteImage (referenced : Uuid → Bool) (operator : String → Bool) (row : Uuid) :
    Calls.Only (fun r => r.harmless = true) (deleteImage referenced operator row) := by
  refine Calls.only_bind (Calls.only_demand rfl) ?_
  intro entry
  cases entry with
  | none => trivial
  | some entry =>
    dsimp only
    split
    · split
      · refine Calls.only_bind (Calls.only_demand rfl) ?_
        intro _
        refine Calls.only_bind (only_selectForUpdate _) ?_
        intro locked
        cases locked with
        | none => exact Calls.only_bind (Calls.only_demand rfl) (fun _ => trivial)
        | some locked =>
          dsimp only
          split
          · exact Calls.only_bind (Calls.only_demand rfl) (fun _ => trivial)
          · split <;> exact Calls.only_bind (Calls.only_demand rfl) (fun _ => trivial)
      · trivial
    · trivial

end Taking

section Runs

variable (settings : Settings)

abbrev PrivateConfig := Calls.Config State Request Request.Answer ImageError PrivateResult

def privateStep : PrivateConfig → Calls.Event PrivateOperation → PrivateConfig :=
  Calls.step (service settings) (privateProgram settings)

/-- A catalog within the project's caps, before any upload of the run; rows may be pending from
before, and then carry an attempt. -/
structure WithinCaps (project : String) (s : State) : Prop where
  issued : ∀ a, s.issued a = none
  attempts : ∀ row ∈ s.catalog.rows, ∀ a, row.attempt = some a → a < s.nextId
  pending : ∀ row ∈ s.catalog.rows, row.state = .pending ↔ row.attempt ≠ none
  reservations : s.reservations = []
  readings : s.readings = []
  count : (projectUsage s.catalog project none).1 ≤ settings.maxCount
  bytes : (projectUsage s.catalog project none).2 ≤ settings.maxBytes

variable {settings}

theorem WithinCaps.capped {project : String} {s : State} (within : WithinCaps settings project s) :
    Capped settings project s where
  fresh := fun a _ => within.issued a
  attempts := within.attempts
  pending := fun row member holds => (within.pending row member).mpr holds
  count := within.count
  bytes := within.bytes
  leads := by simp [within.reservations]
  readings := by simp [within.readings]

theorem quota_program (settings : Settings) (project : String) (operation : PrivateOperation) :
    Calls.Safe (quotaDiscipline settings project) (privateProgram settings operation) := by
  intro i s _ _
  cases operation with
  | upload request now =>
    rw [privateProgram, Calls.wp_bind]
    exact Calls.wp_mono (quota_registerPrivateUpload request now) (fun _ _ _ => trivial)
      (fun _ _ raised => raised)
  | repair grace =>
    rw [privateProgram, Calls.wp_bind]
    exact Calls.wp_mono (quota_repairDanglingImages grace) (fun _ _ _ => trivial)
      (fun _ _ raised => raised)
  | expire referenced =>
    apply quota_only
    refine Calls.only_bind (Calls.only_bind (Calls.only_demand rfl) ?_) (fun _ => trivial)
    intro now
    refine Calls.only_bind (Calls.only_demand rfl) ?_
    intro candidates
    exact Calls.only_bind (Calls.only_demand rfl) (fun _ => only_expireAll referenced candidates)
  | delete referenced operator row =>
    exact quota_only (Calls.only_bind (only_deleteImage referenced operator row) (fun _ => trivial))
  | wait delay => exact quota_only (Calls.only_bind (Calls.only_demand rfl) (fun _ => trivial))

/-- In every interleaving of uploads, repairs, expiries and deletions the project stays within its
caps, and no upload is denied for quota where a reservation of its identity and size was left
behind. -/
theorem private_quota_kept (settings : Settings) (project : String) (start : State)
    (within : WithinCaps settings project start) (events : List (Calls.Event PrivateOperation)) :
    let final := (Trace.run (privateStep settings) ⟨start, []⟩ events).state
    (projectUsage final.catalog project none).1 ≤ settings.maxCount ∧
      (projectUsage final.catalog project none).2 ≤ settings.maxBytes ∧
      ∀ reading ∈ final.readings, reading.asked.project = project → Fair settings reading := by
  have ok : Calls.Consistent (quotaDiscipline settings project)
      (Trace.run (privateStep settings) ⟨start, []⟩ events) := by
    apply Calls.consistent_of_any_run
    · exact fun _ _ _ => trivial
    · exact quota_program settings project
    · exact within.capped
    · exact fun _ => trivial
  have capped : Capped settings project _ := ok.inv
  exact ⟨capped.count, capped.bytes, capped.readings⟩

def stagedState : State :=
  { emptyState with store := Store.empty.put ⟨.quarantine "base.qcow2", [97, 98, 99], none, false⟩ }

def abcUpload : PrivateUploadRequest where
  project := "demo"
  principal := "alice"
  name := "base"
  provider := "local"
  arch := "x86_64"
  quarantineKey := "base.qcow2"
  expiresAt := 50
  required := []

def retriedUpload : List (Calls.Event PrivateOperation) :=
  [.start (.upload abcUpload 0)] ++ List.replicate 11 (.call 0 .answered) ++
    [.leave 0 false, .start (.upload abcUpload 0)] ++ List.replicate 20 (.call 1 .answered)

theorem retried_upload_within_quota :
    let final := (Trace.run (privateStep abcSettings) ⟨stagedState, []⟩ retriedUpload).state
    final.catalog.rows.map (·.state) = [.registered] ∧
      final.readings.map (·.adopting) = [none, some 1] ∧
      (projectUsage final.catalog "demo" none).1 ≤ abcSettings.maxCount ∧
      (projectUsage final.catalog "demo" none).2 ≤ abcSettings.maxBytes ∧
      ∀ reading ∈ final.readings, reading.asked.project = "demo" → Fair abcSettings reading := by
  refine ⟨by decide +kernel, by decide +kernel, ?_⟩
  apply private_quota_kept
  constructor <;> simp [stagedState, emptyState, Table.empty, projectUsage]

end Runs

end Kdive.Images
