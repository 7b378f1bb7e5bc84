import Kdive.Images.Publish

/-!
Publication attempts of one row exclude each other. An attempt that owns its row under the
publication lock is the only one that can store at its key, and whoever adopts the row meanwhile
puts another attempt on it; so what is registered is what the attempt on the row stored.
-/
namespace Kdive.Images
open ObjectStore (Bytes Store Object Head)

variable (settings : Settings)

section Invariant

def Owned (s : State) (row : CatalogRow) : Prop :=
  ∀ a, row.attempt = some a → row.state = .pending ∧ ∃ res ∈ s.reservations, res.attempt = a ∧
    res.row = row.id ∧ row.objectKey = some res.objectKey ∧
    row.digest = some res.request.digest ∧ row.sizeBytes = res.sizeBytes

structure Spent (s : State) (a : Uuid) : Prop where
  reserved : ∃ res ∈ s.reservations, res.attempt = a
  gone : ∀ row ∈ s.catalog.rows, row.attempt ≠ some a

def Faithful (s : State) (g : Registration) (a : Uuid) : Prop :=
  ∃ key version object, g.row.objectKey = some key ∧ g.object = some (version, object) ∧
    object.key = .image key ∧ ⟨a, version⟩ ∈ s.stored ∧
    object.content.length = g.row.sizeBytes ∧
    g.row.digest.bind digestSha256 = some (settings.sha256 object.content)

structure Wf (s : State) : Prop where
  fresh : ∀ a, s.nextId ≤ a → s.issued a = none
  issued : ∀ res ∈ s.reservations, s.issued res.attempt ≠ none
  unique : ∀ res ∈ s.reservations, ∀ res' ∈ s.reservations, res.attempt = res'.attempt → res = res'
  keys : ∀ res ∈ s.reservations, res.objectKey.attempt = some res.attempt ∧
    res.objectKey.suffix = .qcow2
  owned : ∀ row ∈ s.catalog.rows, Owned s row
  pending : ∀ row ∈ s.catalog.rows, row.state = .pending → row.attempt ≠ none
  adopted : ∀ a ∈ s.adopted, Spent s a
  registered : ∀ g ∈ s.registrations, ∃ a, g.row.attempt = some a ∧ a ∉ s.adopted ∧ Spent s a ∧
    Faithful settings s g a
  checked : ∀ i res, s.checked i = some res → s.publishLocks res.row = some ⟨i, true⟩
  honest : ∀ (v : Nat) (o : Object Key Checksum), s.store.objects[v]? = some o →
    ∀ c, o.checksum = some c → c = settings.sha256 o.content
  stored : ∀ (v : Nat) (o : Object Key Checksum) (key : ImageKey) a, s.store.objects[v]? = some o →
    o.key = .image key → key.attempt = some a → key.suffix = .qcow2 → ⟨a, v⟩ ∈ s.stored

/-- What a process keeps while the others move: its attempts, its locks, the rows it has locked, and
the objects of a row whose publication it has locked. -/
structure Rely (i : Nat) (s t : State) : Prop where
  issued : ∀ a, s.issued a = some i → t.issued a = some i
  issuedOnly : ∀ a, t.issued a = some i → s.issued a = some i
  kept : s.reservations ⊆ t.reservations
  mine : ∀ res ∈ t.reservations, s.issued res.attempt = some i → res ∈ s.reservations
  publish : ∀ row session, s.publishLocks row = some ⟨i, session⟩ →
    t.publishLocks row = some ⟨i, session⟩
  rows : ∀ row, s.rowLocks row = some i →
    t.rowLocks row = some i ∧ Table.find t.catalog row = Table.find s.catalog row
  objects : ∀ row session, s.publishLocks row = some ⟨i, session⟩ → ∀ res ∈ s.reservations,
    res.row = row →
      t.store.find (.image res.objectKey) none = s.store.find (.image res.objectKey) none
  versions : ∀ (v : Nat) (o : Object Key Checksum), s.store.objects[v]? = some o →
    t.store.objects[v]? = some o
  registrations : s.registrations ⊆ t.registrations
  refused : t.refused i = s.refused i

variable {settings} {i j : Nat} {s t u : State}

theorem Rely.refl (i : Nat) (s : State) : Rely i s s where
  issued := fun _ known => known
  issuedOnly := fun _ known => known
  kept := fun _ member => member
  mine := fun _ member _ => member
  publish := fun _ _ held => held
  rows := fun _ held => ⟨held, rfl⟩
  objects := fun _ _ _ _ _ _ => rfl
  versions := fun _ _ here => here
  registrations := fun _ member => member
  refused := rfl

theorem Rely.trans (first : Rely i s t) (second : Rely i t u) : Rely i s u where
  issued := fun a known => second.issued a (first.issued a known)
  issuedOnly := fun a known => first.issuedOnly a (second.issuedOnly a known)
  kept := List.Subset.trans first.kept second.kept
  mine := by
    intro res member known
    exact first.mine res (second.mine res member (first.issued _ known)) known
  publish := fun row session held => second.publish row session (first.publish row session held)
  rows := by
    intro row held
    obtain ⟨still, same⟩ := first.rows row held
    obtain ⟨still', same'⟩ := second.rows row still
    exact ⟨still', same'.trans same⟩
  objects := by
    intro row session held res member here
    rw [second.objects row session (first.publish row session held) res (first.kept member) here]
    exact first.objects row session held res member here
  versions := fun v o here => second.versions v o (first.versions v o here)
  registrations := List.Subset.trans first.registrations second.registrations
  refused := second.refused.trans first.refused

theorem Spent.mono {a : Uuid} (spent : Spent s a) (kept : s.reservations ⊆ t.reservations)
    (fewer : ∀ row ∈ t.catalog.rows, row.attempt = some a → row ∈ s.catalog.rows) : Spent t a := by
  obtain ⟨res, member, same⟩ := spent.reserved
  refine ⟨⟨res, kept member, same⟩, ?_⟩
  intro row member holds
  exact spent.gone row (fewer row member holds) holds

theorem Spent.sameRows {a : Uuid} (spent : Spent s a) (reservations : t.reservations = s.reservations)
    (catalog : t.catalog = s.catalog) : Spent t a := by
  refine spent.mono ?_ ?_
  · rw [reservations]
    exact fun _ member => member
  · rw [catalog]
    exact fun _ member _ => member

theorem Owned.mono {row : CatalogRow} (owned : Owned s row)
    (kept : s.reservations ⊆ t.reservations) : Owned t row := by
  intro a holds
  obtain ⟨pending, res, member, rest⟩ := owned a holds
  exact ⟨pending, res, kept member, rest⟩

theorem Wf.row_of_attempt (wf : Wf settings s) {row other : CatalogRow} {a : Uuid}
    (member : row ∈ s.catalog.rows) (member' : other ∈ s.catalog.rows)
    (holds : row.attempt = some a) (holds' : other.attempt = some a) : row = other := by
  obtain ⟨_, res, here, attempt, isRow, _⟩ := wf.owned row member a holds
  obtain ⟨_, res', here', attempt', isRow', _⟩ := wf.owned other member' a holds'
  have same := wf.unique res here res' here' (attempt.trans attempt'.symm)
  apply Table.row_unique member member'
  rw [← isRow, ← isRow', same]

theorem Wf.row_of_reservation (wf : Wf settings s) {row : CatalogRow} {res : PublishReservation}
    (member : row ∈ s.catalog.rows) (holds : row.attempt = some res.attempt)
    (reserved : res ∈ s.reservations) :
    row.id = res.row ∧ row.objectKey = some res.objectKey ∧
      row.digest = some res.request.digest ∧ row.sizeBytes = res.sizeBytes := by
  obtain ⟨_, res', here, attempt, isRow, key, digest, size⟩ := wf.owned row member _ holds
  obtain rfl := wf.unique res' here res reserved attempt
  exact ⟨isRow.symm, key, digest, size⟩

end Invariant

section Discipline

/-- A move that touches nothing but the locks, the clock and the identifiers. -/
structure LocksOnly (i : Nat) (s t : State) : Prop where
  catalog : t.catalog = s.catalog
  store : t.store = s.store
  reservations : t.reservations = s.reservations
  adopted : t.adopted = s.adopted
  registrations : t.registrations = s.registrations
  stored : t.stored = s.stored
  fresh : (∀ a, s.nextId ≤ a → s.issued a = none) → ∀ a, t.nextId ≤ a → t.issued a = none
  issued : ∀ a p, s.issued a = some p →
    (∀ b, s.nextId ≤ b → s.issued b = none) → t.issued a = some p
  issuedOnly : ∀ a p, t.issued a = some p → p ≠ i → s.issued a = some p
  publish : ∀ row hold, s.publishLocks row = some hold → hold.holder ≠ i →
    t.publishLocks row = some hold
  checked : (∀ j res, s.checked j = some res → s.publishLocks res.row = some ⟨j, true⟩) →
    ∀ j res, t.checked j = some res → t.publishLocks res.row = some ⟨j, true⟩
  rows : ∀ row p, s.rowLocks row = some p → p ≠ i → t.rowLocks row = some p
  refused : ∀ j, j ≠ i → t.refused j = s.refused j

variable {settings} {i j : Nat} {s t : State}

theorem LocksOnly.wf (only : LocksOnly i s t) (wf : Wf settings s) : Wf settings t where
  fresh := only.fresh wf.fresh
  issued := by
    intro res member none
    rw [only.reservations] at member
    cases known : s.issued res.attempt with
    | none => exact wf.issued res member known
    | some p =>
      rw [only.issued _ p known wf.fresh] at none
      cases none
  unique := by
    rw [only.reservations]
    exact wf.unique
  keys := by
    rw [only.reservations]
    exact wf.keys
  owned := by
    rw [only.catalog]
    intro row member
    exact (wf.owned row member).mono (by rw [only.reservations]; exact fun _ m => m)
  pending := by
    rw [only.catalog]
    exact wf.pending
  adopted := by
    rw [only.adopted]
    intro a member
    exact (wf.adopted a member).sameRows only.reservations only.catalog
  registered := by
    rw [only.registrations, only.adopted]
    intro g member
    obtain ⟨a, attempt, free, spent, faithful⟩ := wf.registered g member
    refine ⟨a, attempt, free, spent.sameRows only.reservations only.catalog, ?_⟩
    unfold Faithful
    rw [only.stored]
    exact faithful
  checked := only.checked wf.checked
  honest := by
    rw [only.store]
    exact wf.honest
  stored := by
    rw [only.store, only.stored]
    exact wf.stored

theorem LocksOnly.rely (only : LocksOnly i s t) (wf : Wf settings s) (other : j ≠ i) :
    Rely j s t where
  issued := fun a known => only.issued a j known wf.fresh
  issuedOnly := fun a known => only.issuedOnly a j known other
  kept := by
    rw [only.reservations]
    exact fun _ member => member
  mine := by
    rw [only.reservations]
    exact fun _ member _ => member
  publish := fun row session held => only.publish row _ held other
  rows := by
    intro row held
    refine ⟨only.rows row j held other, ?_⟩
    rw [only.catalog]
  objects := by
    rw [only.store]
    exact fun _ _ _ _ _ _ => rfl
  versions := by
    rw [only.store]
    exact fun _ _ here => here
  registrations := by
    rw [only.registrations]
    exact fun _ member => member
  refused := only.refused j other

theorem locksOnly_refl (s : State) : LocksOnly i s s where
  catalog := rfl
  store := rfl
  reservations := rfl
  adopted := rfl
  registrations := rfl
  stored := rfl
  fresh := fun fresh => fresh
  issued := fun _ _ known _ => known
  issuedOnly := fun _ _ known _ => known
  publish := fun _ _ held _ => held
  checked := fun checked => checked
  rows := fun _ _ held _ => held
  refused := fun _ _ => rfl

theorem endTransaction_publish (s : State) (i : Nat) {row : Uuid} {hold : Hold}
    (held : s.publishLocks row = some hold) (stays : hold.holder ≠ i ∨ hold.session = true) :
    (s.endTransaction i).publishLocks row = some hold := by
  simp only [State.endTransaction, held]
  rcases stays with other | session
  · simp [Option.filter, other]
  · simp [Option.filter, session]

theorem endTransaction_rows (s : State) (i : Nat) {row : Uuid} {p : Nat}
    (held : s.rowLocks row = some p) (other : p ≠ i) : (s.endTransaction i).rowLocks row = some p := by
  simp [State.endTransaction, held, Option.filter, other]

theorem locksOnly_endTransaction (s : State) (i : Nat) : LocksOnly i s (s.endTransaction i) :=
  { locksOnly_refl s with
    publish := fun _ _ held other => endTransaction_publish s i held (.inl other)
    checked := fun checked j res now => endTransaction_publish s i (checked j res now) (.inr rfl)
    rows := fun _ _ held other => endTransaction_rows s i held other }

theorem checked_of_other {t : State} (checkedOnly : t.checked = Function.update s.checked i none)
    (publish : ∀ row hold, s.publishLocks row = some hold → hold.holder ≠ i →
      t.publishLocks row = some hold)
    (checked : ∀ j res, s.checked j = some res → s.publishLocks res.row = some ⟨j, true⟩) (j : Nat)
    (res : PublishReservation) (now : t.checked j = some res) :
    t.publishLocks res.row = some ⟨j, true⟩ := by
  rw [checkedOnly] at now
  by_cases same : j = i
  · subst same
    simp at now
  · rw [Function.update_of_ne same] at now
    exact publish res.row _ (checked j res now) same

theorem locksOnly_endSession (s : State) (i : Nat) : LocksOnly i s (s.endSession i) := by
  have publish : ∀ row hold, s.publishLocks row = some hold → hold.holder ≠ i →
      (s.endSession i).publishLocks row = some hold := by
    intro row hold held other
    simp [State.endSession, held, Option.filter, other]
  exact { locksOnly_refl s with
    publish := publish
    checked := checked_of_other rfl publish
    rows := fun _ _ held other => endTransaction_rows s i held other }

/-- Nothing is assumed of the calls; a process that has not begun was issued and refused nothing. -/
def fenceDiscipline (settings : Settings) : Calls.Discipline (service settings) where
  inv := Wf settings
  assumes := fun _ _ _ => True
  rely := Rely
  fresh := fun i s => s.refused i = false ∧ ∀ a, s.issued a ≠ some i
  rely_refl := Rely.refl
  rely_trans := fun _ _ _ _ first second => first.trans second
  fresh_rely := fun _ _ _ fresh rely =>
    ⟨rely.refused.trans fresh.1, fun a known => fresh.2 a (rely.issuedOnly a known)⟩
  leave_inv := fun i _ s wf => (locksOnly_endSession s i).wf wf
  leave_rely := fun i _ _ s wf other => (locksOnly_endSession s i).rely wf other

theorem LocksOnly.allows (only : LocksOnly i s t) (wf : Wf settings s) :
    Calls.Allows (fenceDiscipline settings) i s t :=
  ⟨only.wf wf, fun _ other => only.rely wf other⟩

def Request.plain : Request → Bool
  | .reserve _ _ _ | .assertOwner _ | .register _ _ | .registerRow _ _ | .deleteRow _
  | .put _ _ _ _ | .deleteVersion _ _ => false
  | _ => true

theorem locksOnly_newId (s : State) (i : Nat) :
    LocksOnly i s { s with
      nextId := s.nextId + 1
      issued := Function.update s.issued s.nextId (some i) } :=
  { locksOnly_refl s with
    fresh := by
      intro fresh a above
      have new : a ≠ s.nextId := Nat.ne_of_gt above
      simp only [Function.update_of_ne new]
      exact fresh a (Nat.le_of_lt above)
    issued := by
      intro a p known fresh
      have old : a ≠ s.nextId := by
        rintro rfl
        rw [fresh s.nextId (Nat.le_refl _)] at known
        cases known
      simp only [Function.update_of_ne old, known]
    issuedOnly := by
      intro a p known other
      by_cases new : a = s.nextId
      · subst new
        simp only [Function.update_self, Option.some.injEq] at known
        exact absurd known.symm other
      · simpa only [Function.update_of_ne new] using known }

theorem locksOnly_publish {row : Uuid} {session : Bool} (free : s.publishFree i row = true)
    (keeps : ∀ hold, s.publishLocks row = some hold → hold.session = true → session = true) :
    LocksOnly i s { s with
      publishLocks := Function.update s.publishLocks row (some ⟨i, session⟩) } := by
  have mine : ∀ hold, s.publishLocks row = some hold → hold.holder = i := by
    intro hold held
    simpa [State.publishFree, held] using free
  exact { locksOnly_refl s with
    publish := by
      intro row' hold held other
      have elsewhere : row' ≠ row := by
        rintro rfl
        exact other (mine hold held)
      simp only [Function.update_of_ne elsewhere, held]
    checked := by
      intro checked j res now
      have held := checked j res now
      by_cases here : res.row = row
      · rw [here] at held ⊢
        obtain rfl := mine _ held
        simp [keeps _ held rfl]
      · simp only [Function.update_of_ne here, held] }

theorem locksOnly_of_plain {r : Request} {a : r.Answer} (plain : r.plain = true)
    (served : s.serve settings i r = some (a, t)) : LocksOnly i s t := by
  cases r with
  | newId =>
    obtain rfl := Calls.state_eq served
    exact locksOnly_newId s i
  | endTransaction =>
    obtain rfl := Calls.state_eq served
    exact locksOnly_endTransaction s i
  | lockProject project =>
    rw [State.serve] at served
    split at served
    · obtain rfl := Calls.state_eq served
      exact { locksOnly_refl s with }
    · cases served
  | lockRow selection row =>
    rw [State.serve] at served
    split at served
    · rename_i free
      split at served
      · obtain rfl := Calls.state_eq served
        exact { locksOnly_refl s with
          rows := fun row' p held other => by
            have elsewhere : row' ≠ row := by
              rintro rfl
              simp only [State.rowFree, held, Option.all_some, beq_iff_eq] at free
              exact other free
            simp only [Function.update_of_ne elsewhere, held] }
      · obtain rfl := Calls.state_eq served
        exact locksOnly_refl s
    · cases served
  | lockPublish row =>
    rw [State.serve] at served
    split at served
    · rename_i free
      obtain rfl := Calls.state_eq served
      exact locksOnly_publish free (fun _ _ _ => rfl)
    · cases served
  | tryLockPublish row =>
    rw [State.serve] at served
    split at served
    · rename_i free
      obtain rfl := Calls.state_eq served
      cases held : s.publishLocks row with
      | none => exact locksOnly_publish free (by simp [held])
      | some hold =>
        have mine : hold.holder = i := by simpa [State.publishFree, held] using free
        obtain ⟨holder, session⟩ := hold
        obtain rfl : holder = i := mine
        exact locksOnly_publish free (by simp [held])
    · obtain rfl := Calls.state_eq served
      exact locksOnly_refl s
  | unlockPublish row =>
    obtain rfl := Calls.state_eq served
    have publish : ∀ row' hold, s.publishLocks row' = some hold → hold.holder ≠ i →
        Function.update s.publishLocks row ((s.publishLocks row).filter (·.holder != i)) row' =
          some hold := by
      intro row' hold held other
      by_cases here : row' = row
      · subst here
        simp [held, Option.filter, other]
      · rw [Function.update_of_ne here, held]
    exact { locksOnly_refl s with
      publish := publish
      checked := checked_of_other rfl publish }
  | advance delay =>
    obtain rfl := Calls.state_eq served
    exact { locksOnly_refl s with }
  | projectUsage asked adopting =>
    obtain rfl := Calls.state_eq served
    exact { locksOnly_refl s with }
  | begin | registeredName _ | snapshot _ | candidates _ | head _ | get _ | getRow _ | expiries _
  | captureExactVersions _ _ =>
    obtain rfl := Calls.state_eq served
    exact locksOnly_refl s
  | reserve _ _ _ | assertOwner _ | register _ _ | registerRow _ _ | deleteRow _ | put _ _ _ _
  | deleteVersion _ _ => cases plain

end Discipline

section Moves

variable {settings} {i : Nat} {s t : State} {res : PublishReservation}

theorem allows_locks (allowed : Calls.Allows (fenceDiscipline settings) i s t) {u : State}
    (only : LocksOnly i t u) : Calls.Allows (fenceDiscipline settings) i s u :=
  ⟨only.wf allowed.inv,
    fun j other => (allowed.rely j other).trans (only.rely allowed.inv other)⟩

structure Untouched (i : Nat) (s : State) : Prop where
  unreserved : ∀ res ∈ s.reservations, s.issued res.attempt ≠ some i
  unrefused : s.refused i = false

def Evident (res : PublishReservation) (s : State) : Prop :=
  ∃ version object, s.store.find (.image res.objectKey) none = some (version, object) ∧
    object.content.length = res.sizeBytes ∧ object.checksum.isSome ∧
    object.checksum = digestSha256 res.request.digest

theorem rowFree_other {row : Uuid} {j : Nat} (free : s.rowFree i row = true)
    (held : s.rowLocks row = some j) : j = i := by
  simpa [State.rowFree, held] using free

section Reserve

structure Refreshed (res : PublishReservation) (row : CatalogRow) : Prop where
  isRow : row.id = res.row
  attempt : row.attempt = some res.attempt
  pending : row.state = .pending
  key : row.objectKey = some res.objectKey
  digest : row.digest = some res.request.digest
  size : row.sizeBytes = res.sizeBytes

theorem refreshed_refresh {row : CatalogRow} (isRow : row.id = res.row) (now : Instant) :
    Refreshed res (refresh res now row) := by
  unfold refresh
  split <;> exact ⟨isRow, rfl, rfl, rfl, rfl, rfl⟩

theorem mem_updateRow {id : Uuid} {f : CatalogRow → CatalogRow} (keeps : ∀ r, (f r).id = r.id)
    {row : CatalogRow} (member : row ∈ (s.updateRow id f keeps).catalog.rows) :
    (row ∈ s.catalog.rows ∧ row.id ≠ id) ∨ ∃ old ∈ s.catalog.rows, old.id = id ∧ row = f old := by
  simp only [State.updateRow, Table.mem_update] at member
  obtain ⟨old, here, rfl⟩ := member
  by_cases same : old.id = id
  · exact .inr ⟨old, here, same, by simp [same]⟩
  · exact .inl (by simpa [same] using here)

theorem find_updateRow_other {id row : Uuid} {f : CatalogRow → CatalogRow}
    (keeps : ∀ r, (f r).id = r.id) (other : row ≠ id) :
    Table.find (s.updateRow id f keeps).catalog row = Table.find s.catalog row := by
  unfold State.updateRow
  rw [Table.find_update]
  cases found : Table.find s.catalog row with
  | none => rfl
  | some held =>
    have different : held.id ≠ id := by
      rw [Table.find_key found]
      exact other
    simp [different]

theorem mem_claimed {adopting : Bool} {now : Instant} {row : CatalogRow}
    (member : row ∈ (s.claimed res adopting now).catalog.rows) :
    (row ∈ s.catalog.rows ∧ (adopting = true → row.id ≠ res.row)) ∨ Refreshed res row := by
  unfold State.claimed at member
  cases adopting with
  | true =>
    rcases mem_updateRow (State.refresh_id res now) member with ⟨old, other⟩ | ⟨old, _, isRow, rfl⟩
    · exact .inl ⟨old, fun _ => other⟩
    · exact .inr (refreshed_refresh isRow now)
  | false =>
    rcases Table.mem_insert member with old | ⟨rfl, _⟩
    · exact .inl ⟨old, by simp⟩
    · exact .inr ⟨rfl, rfl, rfl, rfl, rfl, rfl⟩

theorem find_claimed_other {adopting : Bool} {now : Instant} {row : Uuid} (other : row ≠ res.row) :
    Table.find (s.claimed res adopting now).catalog row = Table.find s.catalog row := by
  unfold State.claimed
  cases adopting with
  | true => exact find_updateRow_other (State.refresh_id res now) other
  | false => exact Table.find_insert_other (Ne.symm other)

theorem Untouched.new (untouched : Untouched i s) (issued : s.issued res.attempt = some i)
    {other : PublishReservation} (member : other ∈ s.reservations) : other.attempt ≠ res.attempt := by
  intro same
  apply untouched.unreserved other member
  rw [same, issued]

theorem Spent.reserving {a : Uuid} (spent : Spent s a) (untouched : Untouched i s)
    (issued : s.issued res.attempt = some i) (adopting : Bool) (now : Instant) :
    Spent (s.reserving res adopting now) a := by
  obtain ⟨⟨old, member, isAttempt⟩, gone⟩ := spent
  refine ⟨⟨old, List.mem_append_left _ member, isAttempt⟩, ?_⟩
  intro row here holds
  rcases mem_claimed here with ⟨before, _⟩ | new
  · exact gone row before holds
  · apply untouched.new issued member
    rw [isAttempt]
    exact Option.some.inj (holds.symm.trans new.attempt)

theorem spent_previous (wf : Wf settings s) (untouched : Untouched i s)
    (issued : s.issued res.attempt = some i) {adopting : Bool} (now : Instant) {a : Uuid}
    (previous : s.previousAttempt res adopting = some a) :
    (∃ row ∈ s.catalog.rows, row.attempt = some a) ∧ Spent (s.reserving res adopting now) a := by
  unfold State.previousAttempt at previous
  cases adopting with
  | false => cases previous
  | true =>
    obtain ⟨row, found, holds⟩ := Option.bind_eq_some_iff.mp previous
    have here := Table.find_mem found
    obtain ⟨_, old, member, isAttempt, _⟩ := wf.owned row here a holds
    refine ⟨⟨row, here, holds⟩, ⟨old, List.mem_append_left _ member, isAttempt⟩, ?_⟩
    intro other there holds'
    rcases mem_claimed there with ⟨before, elsewhere⟩ | new
    · obtain rfl := wf.row_of_attempt here before holds holds'
      exact elsewhere rfl (Table.find_key found)
    · apply untouched.new issued member
      rw [isAttempt]
      exact Option.some.inj (holds'.symm.trans new.attempt)

theorem wf_reserving (wf : Wf settings s) (untouched : Untouched i s)
    (issued : s.issued res.attempt = some i)
    (keys : res.objectKey.attempt = some res.attempt ∧ res.objectKey.suffix = .qcow2)
    (adopting : Bool) (now : Instant) : Wf settings (s.reserving res adopting now) where
  fresh := by
    cases adopting <;> exact wf.fresh
  issued := by
    intro other member
    have same : (s.reserving res adopting now).issued = s.issued := by
      cases adopting <;> rfl
    rw [same]
    rcases List.mem_append.mp member with old | new
    · exact wf.issued other old
    · obtain rfl := List.mem_singleton.mp new
      simp [issued]
  unique := by
    intro one member other member' same
    rcases List.mem_append.mp member with old | new <;>
      rcases List.mem_append.mp member' with old' | new'
    · exact wf.unique one old other old' same
    · obtain rfl := List.mem_singleton.mp new'
      exact absurd same (untouched.new issued old)
    · obtain rfl := List.mem_singleton.mp new
      exact absurd same.symm (untouched.new issued old')
    · rw [List.mem_singleton.mp new, List.mem_singleton.mp new']
  keys := by
    intro other member
    rcases List.mem_append.mp member with old | new
    · exact wf.keys other old
    · obtain rfl := List.mem_singleton.mp new
      exact keys
  owned := by
    intro row member
    rcases mem_claimed member with ⟨old, _⟩ | new
    · exact (wf.owned row old).mono (List.subset_append_left _ _)
    · intro a holds
      obtain rfl := Option.some.inj (new.attempt.symm.trans holds)
      exact ⟨new.pending, res, List.mem_append_right _ (List.mem_singleton_self res), rfl,
        new.isRow.symm, new.key, new.digest, new.size⟩
  pending := by
    intro row member pending
    rcases mem_claimed member with ⟨old, _⟩ | new
    · exact wf.pending row old pending
    · simp [new.attempt]
  adopted := by
    intro a member
    rcases List.mem_append.mp member with old | new
    · exact (wf.adopted a old).reserving untouched issued adopting now
    · exact (spent_previous wf untouched issued now (Option.mem_toList.mp new)).2
  registered := by
    have same : (s.reserving res adopting now).registrations = s.registrations := by
      cases adopting <;> rfl
    rw [same]
    intro g member
    obtain ⟨a, attempt, free, spent, faithful⟩ := wf.registered g member
    refine ⟨a, attempt, ?_, spent.reserving untouched issued adopting now, ?_⟩
    · intro taken
      rcases List.mem_append.mp taken with old | new
      · exact free old
      · obtain ⟨row, here, holds⟩ :=
          (spent_previous wf untouched issued now (Option.mem_toList.mp new)).1
        exact spent.gone row here holds
    · cases adopting <;> exact faithful
  checked := by
    cases adopting <;> exact wf.checked
  honest := by
    cases adopting <;> exact wf.honest
  stored := by
    cases adopting <;> exact wf.stored

theorem rely_reserving {j : Nat} (issued : s.issued res.attempt = some i)
    (free : s.rowFree i res.row = true) (adopting : Bool) (now : Instant) (other : j ≠ i) :
    Rely j s (s.reserving res adopting now) where
  issued := by
    cases adopting <;> exact fun _ known => known
  issuedOnly := by
    cases adopting <;> exact fun _ known => known
  kept := List.subset_append_left _ _
  mine := by
    intro one member known
    rcases List.mem_append.mp member with old | new
    · exact old
    · obtain rfl := List.mem_singleton.mp new
      rw [issued] at known
      exact absurd (Option.some.inj known).symm other
  publish := by
    cases adopting <;> exact fun _ _ held => held
  rows := by
    intro row held
    have elsewhere : row ≠ res.row := by
      rintro rfl
      exact other (rowFree_other free held)
    refine ⟨?_, find_claimed_other elsewhere⟩
    cases adopting <;> exact held
  objects := by
    cases adopting <;> exact fun _ _ _ _ _ _ => rfl
  versions := by
    cases adopting <;> exact fun _ _ here => here
  registrations := by
    cases adopting <;> exact fun _ member => member
  refused := by
    cases adopting <;> rfl

theorem allows_reserve (wf : Wf settings s) (untouched : Untouched i s)
    (issued : s.issued res.attempt = some i)
    (keys : res.objectKey.attempt = some res.attempt ∧ res.objectKey.suffix = .qcow2)
    (free : s.rowFree i res.row = true) (adopting : Bool) (now : Instant) :
    Calls.Allows (fenceDiscipline settings) i s (s.reserve i res adopting now) := by
  have allowed : Calls.Allows (fenceDiscipline settings) i s (s.reserving res adopting now) :=
    ⟨wf_reserving wf untouched issued keys adopting now,
      fun j other => rely_reserving issued free adopting now other⟩
  exact allows_locks allowed (locksOnly_endTransaction _ i)

end Reserve

section Register

theorem registered_id (clearConfig : Bool) (row : CatalogRow) :
    (row.registered clearConfig).id = row.id := rfl

theorem mem_flip {row row' : CatalogRow} {clearConfig : Bool}
    (member : row' ∈ (s.flip row clearConfig).catalog.rows) :
    (row' ∈ s.catalog.rows ∧ row'.id ≠ row.id) ∨ (row'.attempt = none ∧ row'.state = .registered) := by
  rcases mem_updateRow (registered_id clearConfig) member with old | ⟨old, _, _, rfl⟩
  · exact .inl old
  · exact .inr ⟨rfl, rfl⟩

theorem mem_flip_of_attempt {row row' : CatalogRow} {clearConfig : Bool} {a : Uuid}
    (member : row' ∈ (s.flip row clearConfig).catalog.rows) (holds : row'.attempt = some a) :
    row' ∈ s.catalog.rows ∧ row'.id ≠ row.id := by
  rcases mem_flip member with old | ⟨none, _⟩
  · exact old
  · rw [none] at holds
    cases holds

theorem Spent.flip {a : Uuid} (spent : Spent s a) (row : CatalogRow) (clearConfig : Bool) :
    Spent (s.flip row clearConfig) a :=
  spent.mono (fun _ member => member) (fun _ member holds => (mem_flip_of_attempt member holds).1)

theorem faithful_of_evident (wf : Wf settings s) {row : CatalogRow} (member : row ∈ s.catalog.rows)
    (holds : row.attempt = some res.attempt) (reserved : res ∈ s.reservations)
    (evident : Evident res s) :
    Faithful settings s ⟨row, row.objectKey.bind (fun key => s.store.find (.image key) none)⟩
      res.attempt := by
  obtain ⟨_, isKey, isDigest, isSize⟩ := wf.row_of_reservation member holds reserved
  obtain ⟨version, object, found, size, summed, digest⟩ := evident
  obtain ⟨here, objectKey, _⟩ := ObjectStore.Store.find_spec found
  obtain ⟨keyAttempt, keySuffix⟩ := wf.keys res reserved
  refine ⟨res.objectKey, version, object, isKey, ?_, objectKey, ?_, ?_, ?_⟩
  · simp only [isKey, Option.bind_some, found]
  · exact wf.stored version object res.objectKey res.attempt here objectKey keyAttempt keySuffix
  · exact size.trans isSize.symm
  · obtain ⟨sum, isSum⟩ := Option.isSome_iff_exists.mp summed
    simp only [isDigest, Option.bind_some, ← digest, isSum]
    rw [wf.honest version object here sum isSum]

theorem wf_flip (wf : Wf settings s) {row : CatalogRow} (member : row ∈ s.catalog.rows)
    (holds : row.attempt = some res.attempt) (reserved : res ∈ s.reservations)
    (evident : Evident res s) (clearConfig : Bool) : Wf settings (s.flip row clearConfig) where
  fresh := wf.fresh
  issued := wf.issued
  unique := wf.unique
  keys := wf.keys
  owned := by
    intro row' member' a holds'
    exact wf.owned row' (mem_flip_of_attempt member' holds').1 a holds'
  pending := by
    intro row' member' pending
    rcases mem_flip member' with old | ⟨_, registered⟩
    · exact wf.pending row' old.1 pending
    · rw [registered] at pending
      cases pending
  adopted := fun a taken => (wf.adopted a taken).flip row clearConfig
  registered := by
    intro g new
    rcases List.mem_append.mp new with old | here
    · obtain ⟨a, attempt, free, spent, faithful⟩ := wf.registered g old
      exact ⟨a, attempt, free, spent.flip row clearConfig, faithful⟩
    · obtain rfl := List.mem_singleton.mp here
      refine ⟨res.attempt, holds, ?_, ⟨⟨res, reserved, rfl⟩, ?_⟩, ?_⟩
      · intro taken
        exact (wf.adopted res.attempt taken).gone row member holds
      · intro row' member' holds'
        obtain ⟨before, different⟩ := mem_flip_of_attempt member' holds'
        exact different (congrArg CatalogRow.id (wf.row_of_attempt before member holds' holds))
      · exact faithful_of_evident wf member holds reserved evident
  checked := wf.checked
  honest := wf.honest
  stored := wf.stored

theorem rely_flip {j : Nat} {row : CatalogRow} (free : s.rowFree i row.id = true)
    (clearConfig : Bool) (other : j ≠ i) : Rely j s (s.flip row clearConfig) :=
  { Rely.refl j s with
    rows := by
      intro row' held
      have elsewhere : row' ≠ row.id := by
        rintro rfl
        exact other (rowFree_other free held)
      exact ⟨held, find_updateRow_other (registered_id clearConfig) elsewhere⟩
    registrations := List.subset_append_left _ _ }

theorem allows_flip (wf : Wf settings s) {row : CatalogRow} (member : row ∈ s.catalog.rows)
    (holds : row.attempt = some res.attempt) (reserved : res ∈ s.reservations)
    (evident : Evident res s) (free : s.rowFree i row.id = true) (clearConfig : Bool) :
    Calls.Allows (fenceDiscipline settings) i s (s.flip row clearConfig) :=
  ⟨wf_flip wf member holds reserved evident clearConfig,
    fun _ other => rely_flip free clearConfig other⟩

theorem locksOnly_unchecked (s : State) (i : Nat) :
    LocksOnly i s { s with checked := Function.update s.checked i none } :=
  { locksOnly_refl s with checked := checked_of_other rfl (fun _ _ held _ => held) }

theorem locksOnly_refused (s : State) (i : Nat) :
    LocksOnly i s { s with refused := Function.update s.refused i true } :=
  { locksOnly_refl s with
    refused := fun j other => by simp only [Function.update_of_ne other] }

theorem allows_register (wf : Wf settings s) (reserved : res ∈ s.reservations)
    (evident : Evident res s) (free : s.rowFree i res.row = true) (clearConfig : Bool) :
    Calls.Allows (fenceDiscipline settings) i s (s.register i res clearConfig).2 := by
  have unchecked := (locksOnly_unchecked s i).allows wf
  have finished := allows_locks unchecked (locksOnly_endTransaction _ i)
  unfold State.register
  split
  · exact allows_locks finished (locksOnly_refused _ i)
  · rename_i row found
    split
    · exact finished
    · obtain ⟨found, registers⟩ := Option.filter_eq_some_iff.mp found
      have isRow : row.id = res.row := Table.find_key found
      have holds : row.attempt = some res.attempt := by
        simp only [PublishReservation.registers, Bool.and_eq_true, beq_iff_eq] at registers
        exact registers.1.1.2
      rw [← isRow] at free
      have flipped := allows_flip wf (Table.find_mem found) holds reserved evident free clearConfig
      exact allows_locks (allows_locks flipped (locksOnly_unchecked _ i))
        (locksOnly_endTransaction _ i)

theorem allows_registerRow (wf : Wf settings s) {row : CatalogRow}
    (found : Table.find s.catalog row.id = some row) (holds : row.attempt = some res.attempt)
    (reserved : res ∈ s.reservations) (evident : Evident res s) (free : s.rowFree i row.id = true)
    (clearConfig : Bool) :
    Calls.Allows (fenceDiscipline settings) i s (s.registerRow i row.id clearConfig).2 := by
  have finished := (locksOnly_endTransaction s i).allows wf
  unfold State.registerRow
  rw [found]
  dsimp only
  split
  · exact finished
  · have flipped := allows_flip wf (Table.find_mem found) holds reserved evident free clearConfig
    exact allows_locks flipped (locksOnly_endTransaction _ i)

end Register

section Delete

theorem find_delete_other {row row' : Uuid} (other : row' ≠ row) :
    Table.find (Table.delete s.catalog (·.id == row)) row' = Table.find s.catalog row' := by
  rw [Table.find_delete]
  cases found : Table.find s.catalog row' with
  | none => rfl
  | some r =>
    have different : r.id ≠ row := by
      rw [Table.find_key found]
      exact other
    simp [Option.filter, different]

theorem allows_deleteRow (wf : Wf settings s) {row : Uuid} (free : s.rowFree i row = true) :
    Calls.Allows (fenceDiscipline settings) i s
      ({ s with catalog := Table.delete s.catalog (·.id == row) }.endTransaction i) := by
  have fewer : ∀ r, r ∈ (Table.delete s.catalog (·.id == row)).rows → r ∈ s.catalog.rows :=
    fun r member => (Table.mem_delete.mp member).1
  have deleted : Calls.Allows (fenceDiscipline settings) i s
      { s with catalog := Table.delete s.catalog (·.id == row) } := by
    constructor
    · exact { wf with
        owned := fun r member => wf.owned r (fewer r member)
        pending := fun r member => wf.pending r (fewer r member)
        adopted := fun a taken =>
          (wf.adopted a taken).mono (fun _ member => member) (fun r member _ => fewer r member)
        registered := by
          intro g member
          obtain ⟨a, attempt, free, spent, faithful⟩ := wf.registered g member
          exact ⟨a, attempt, free,
            spent.mono (fun _ member => member) (fun r member _ => fewer r member), faithful⟩ }
    · intro j other
      exact { Rely.refl j s with
        rows := by
          intro row' held
          refine ⟨held, find_delete_other ?_⟩
          rintro rfl
          exact other (rowFree_other free held) }
  exact allows_locks deleted (locksOnly_endTransaction _ i)

end Delete

section Objects

def Exclusive (i : Nat) (s : State) (key : Key) : Prop :=
  ∀ res ∈ s.reservations, key = .image res.objectKey →
    ∃ session, s.publishLocks res.row = some ⟨i, session⟩

theorem Exclusive.other {key : Key} (exclusive : Exclusive i s key) {j : Nat} (other : j ≠ i)
    {session : Bool} (member : res ∈ s.reservations)
    (held : s.publishLocks res.row = some ⟨j, session⟩) : key ≠ .image res.objectKey := by
  intro same
  obtain ⟨session', held'⟩ := exclusive res member same
  rw [held] at held'
  exact other (congrArg Hold.holder (Option.some.inj held'))

theorem exclusive_of_lock (wf : Wf settings s) (reserved : res ∈ s.reservations) {session : Bool}
    (held : s.publishLocks res.row = some ⟨i, session⟩) : Exclusive i s (.image res.objectKey) := by
  intro other member same
  have sameKey : res.objectKey = other.objectKey := Key.image.inj same
  have sameAttempt : some res.attempt = some other.attempt := by
    rw [← (wf.keys res reserved).1, ← (wf.keys other member).1, sameKey]
  obtain rfl := wf.unique res reserved other member (Option.some.inj sameAttempt)
  exact ⟨session, held⟩

theorem allows_put (wf : Wf settings s) {attempt : Uuid} {key : Key} {content : Bytes}
    {checksum : Option Checksum} (exclusive : Exclusive i s key)
    (own : ∀ k a, key = .image k → k.attempt = some a → k.suffix = .qcow2 → a = attempt) :
    Calls.Allows (fenceDiscipline settings) i s (s.put settings attempt key content checksum).2 := by
  unfold State.put
  split
  · rename_i agrees
    constructor
    · exact { wf with
        adopted := fun a taken => (wf.adopted a taken).sameRows rfl rfl
        registered := by
          intro g member
          obtain ⟨a, isAttempt, free, spent, key, version, object, rest⟩ := wf.registered g member
          obtain ⟨isKey, isObject, objectKey, stored, described⟩ := rest
          exact ⟨a, isAttempt, free, spent.sameRows rfl rfl, key, version, object, isKey, isObject,
            objectKey, List.mem_append_left _ stored, described⟩
        honest := by
          intro v o here c sum
          rcases Store.put_spec here with old | ⟨_, rfl⟩
          · exact wf.honest v o old c sum
          · have isSum : checksum = some c := sum
            simpa [isSum] using agrees
        stored := by
          intro v o k a here isKey isAttempt suffix
          rcases Store.put_spec here with old | ⟨rfl, rfl⟩
          · exact List.mem_append_left _ (wf.stored v o k a old isKey isAttempt suffix)
          · obtain rfl := own k a isKey isAttempt suffix
            exact List.mem_append_right _ (List.mem_singleton_self _) }
    · intro j other
      exact { Rely.refl j s with
        objects := by
          intro row session held res member isRow
          subst isRow
          exact Store.find_put_other (exclusive.other other member held)
        versions := by
          intro v o here
          have old := (List.getElem?_eq_some_iff.mp here).1
          simpa [Store.put, List.getElem?_append_left old] using here }
  · exact ⟨wf, fun j _ => Rely.refl j s⟩

theorem allows_deleteVersion (wf : Wf settings s) {v : Nat} {o : Object Key Checksum}
    (here : s.store.objects[v]? = some o) (exclusive : Exclusive i s o.key) :
    Calls.Allows (fenceDiscipline settings) i s { s with store := s.store.remove v } := by
  constructor
  · exact { wf with
      adopted := fun a taken => (wf.adopted a taken).sameRows rfl rfl
      registered := by
        intro g member
        obtain ⟨a, isAttempt, free, spent, faithful⟩ := wf.registered g member
        exact ⟨a, isAttempt, free, spent.sameRows rfl rfl, faithful⟩ }
  · intro j other
    exact { Rely.refl j s with
      objects := by
        intro row session held res member isRow
        subst isRow
        exact Store.find_remove_other here (exclusive.other other member held) }

end Objects

section Selection

structure Locked (i : Nat) (selection : Selection) (row : CatalogRow) (s : State) : Prop where
  lock : s.rowLocks row.id = some i
  found : Table.find s.catalog row.id = some row
  selected : selection.holds row = true

theorem lockRow_spec {selection : Selection} {row : Uuid} {answer : Option CatalogRow}
    (served : s.serve settings i (.lockRow selection row) = some (answer, t)) :
    (∃ locks, t = { s with rowLocks := locks }) ∧
      (∀ found, answer = some found → Locked i selection found t ∧ found.id = row) ∧
      (answer = none → ∀ found, Table.find s.catalog row = some found →
        selection.holds found = false) := by
  rw [State.serve] at served
  split at served
  · split at served
    · rename_i found here
      obtain ⟨rfl, rfl⟩ := Prod.mk.inj (Option.some.inj served)
      refine ⟨⟨_, rfl⟩, ?_, by simp⟩
      rintro _ ⟨rfl⟩
      obtain ⟨here, holds⟩ := Option.filter_eq_some_iff.mp here
      have isRow := Table.find_key here
      exact ⟨⟨by simp [isRow], by rw [isRow]; exact here, holds⟩, isRow⟩
    · rename_i absent
      obtain ⟨rfl, rfl⟩ := Prod.mk.inj (Option.some.inj served)
      refine ⟨⟨_, rfl⟩, by simp, ?_⟩
      intro _ found here
      rw [here] at absent
      cases holds : selection.holds found with
      | false => rfl
      | true => simp [Option.filter, holds] at absent
  · cases served

end Selection

end Moves

end Kdive.Images
