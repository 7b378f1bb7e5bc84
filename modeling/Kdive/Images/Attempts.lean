import Kdive.Images.Fence

/-!
What the programs know of the shared state between their calls, and what follows for every run of
publications, uploads and repairs.
-/
namespace Kdive.Images
open ObjectStore (Bytes Store Object Head)

section Outcomes

/-- Every reservation of the process has been registered, and nothing was refused it. -/
structure Settled (i : Nat) (s : State) : Prop where
  registered : ∀ res ∈ s.reservations, s.issued res.attempt = some i →
    ∃ g ∈ s.registrations, g.row.attempt = some res.attempt
  unrefused : s.refused i = false

/-- A process that was refused reports the conflict, unless the database told it nothing. -/
def Explained (i : Nat) (e : ImageError) (s : State) : Prop :=
  s.refused i = true → e = .database ∨
    ∃ res ∈ s.reservations, s.issued res.attempt = some i ∧ e = supersededError res

structure Reserved (i : Nat) (res : PublishReservation) (s : State) : Prop where
  member : res ∈ s.reservations
  issued : s.issued res.attempt = some i
  only : ∀ other ∈ s.reservations, s.issued other.attempt = some i → other = res
  unrefused : s.refused i = false

structure Fenced (i : Nat) (res : PublishReservation) (s : State) : Prop extends Reserved i res s where
  lock : s.publishLocks res.row = some ⟨i, true⟩

variable {settings : Settings} {i : Nat} {s t : State} {res : PublishReservation}

theorem explained_of_unrefused (unrefused : s.refused i = false) (e : ImageError) :
    Explained i e s := by
  intro refused
  rw [unrefused] at refused
  cases refused

theorem explained_database (i : Nat) (s : State) : Explained i .database s := fun _ => .inl rfl

theorem Untouched.rely (untouched : Untouched i s) (rely : Rely i s t) : Untouched i t where
  unreserved := by
    intro res member known
    have before := rely.issuedOnly _ known
    exact untouched.unreserved res (rely.mine res member before) before
  unrefused := rely.refused.trans untouched.unrefused

theorem Untouched.settled (untouched : Untouched i s) : Settled i s where
  registered := fun res member known => absurd known (untouched.unreserved res member)
  unrefused := untouched.unrefused

theorem Reserved.rely (reserved : Reserved i res s) (rely : Rely i s t) : Reserved i res t where
  member := rely.kept reserved.member
  issued := rely.issued _ reserved.issued
  only := by
    intro other member known
    have before := rely.issuedOnly _ known
    exact reserved.only other (rely.mine other member before) before
  unrefused := rely.refused.trans reserved.unrefused

theorem Fenced.rely (fenced : Fenced i res s) (rely : Rely i s t) : Fenced i res t where
  toReserved := fenced.toReserved.rely rely
  lock := rely.publish _ _ fenced.lock

theorem Settled.rely (settled : Settled i s) (rely : Rely i s t) : Settled i t where
  registered := by
    intro res member known
    have before := rely.issuedOnly _ known
    obtain ⟨g, registration, attempt⟩ := settled.registered res (rely.mine res member before) before
    exact ⟨g, rely.registrations registration, attempt⟩
  unrefused := rely.refused.trans settled.unrefused

theorem Explained.rely {e : ImageError} (explained : Explained i e s) (rely : Rely i s t) :
    Explained i e t := by
  intro refused
  rcases explained (rely.refused ▸ refused) with database | ⟨res, member, issued, rfl⟩
  · exact .inl database
  · exact .inr ⟨res, rely.kept member, rely.issued _ issued, rfl⟩

theorem Evident.rely {session : Bool} (evident : Evident res s) (member : res ∈ s.reservations)
    (lock : s.publishLocks res.row = some ⟨i, session⟩) (rely : Rely i s t) : Evident res t := by
  unfold Evident
  rw [rely.objects res.row session lock res member rfl]
  exact evident

end Outcomes

section Plain

variable {settings : Settings} {i : Nat} {s t : State} {res : PublishReservation}

theorem refused_of_plain {r : Request} {a : r.Answer} (plain : r.plain = true)
    (served : s.serve settings i r = some (a, t)) : t.refused = s.refused := by
  cases r with
  | lockProject project =>
    rw [State.serve] at served
    split at served
    · obtain rfl := Calls.state_eq served
      rfl
    · cases served
  | lockRow selection row =>
    rw [State.serve] at served
    split at served
    · split at served <;> obtain rfl := Calls.state_eq served <;> rfl
    · cases served
  | lockPublish row =>
    rw [State.serve] at served
    split at served
    · obtain rfl := Calls.state_eq served
      rfl
    · cases served
  | tryLockPublish row =>
    rw [State.serve] at served
    split at served <;> obtain rfl := Calls.state_eq served <;> rfl
  | newId | begin | endTransaction | registeredName _ | projectUsage _ _ | snapshot _
  | unlockPublish _ | candidates _ | head _ | get _ | getRow _ | expiries _
  | captureExactVersions _ _ | advance _ =>
    obtain rfl := Calls.state_eq served
    rfl
  | reserve _ _ _ | assertOwner _ | register _ _ | registerRow _ _ | deleteRow _ | put _ _ _ _
  | deleteVersion _ _ => cases plain

theorem LocksOnly.issuer (only : LocksOnly i s t) (wf : Wf settings s)
    (member : res ∈ s.reservations) (known : t.issued res.attempt = some i) :
    s.issued res.attempt = some i := by
  cases before : s.issued res.attempt with
  | none => exact absurd before (wf.issued res member)
  | some p =>
    rw [only.issued _ p before wf.fresh] at known
    exact known

theorem Untouched.plain (untouched : Untouched i s) (wf : Wf settings s) (only : LocksOnly i s t)
    (refused : t.refused = s.refused) : Untouched i t where
  unreserved := by
    rw [only.reservations]
    intro res member known
    exact untouched.unreserved res member (only.issuer wf member known)
  unrefused := by
    rw [refused]
    exact untouched.unrefused

theorem Reserved.plain (reserved : Reserved i res s) (wf : Wf settings s) (only : LocksOnly i s t)
    (refused : t.refused = s.refused) : Reserved i res t where
  member := by
    rw [only.reservations]
    exact reserved.member
  issued := only.issued _ i reserved.issued wf.fresh
  only := by
    rw [only.reservations]
    intro other member known
    exact reserved.only other member (only.issuer wf member known)
  unrefused := by
    rw [refused]
    exact reserved.unrefused

/-- Any call that touches only locks, from what is known before it to what is known after. -/
theorem wp_plain {K : State → Prop} {r : Request} {e : ImageError} {Q : r.Answer → State → Prop}
    {E : ImageError → State → Prop} (plain : r.plain = true)
    (rely : ∀ s t, K s → Rely i s t → K t) (holds : K s) (failed : ∀ t, K t → E e t)
    (next : ∀ t a u, Wf settings t → K t → t.serve settings i r = some (a, u) → LocksOnly i t u →
      u.refused = t.refused → E e u ∧ Q a u) :
    Calls.wp (fenceDiscipline settings) i Q E (Calls.demand e r : ImageProgram _) s := by
  apply Calls.wp_demand
  · intro t _ moved
    exact failed t (rely s t holds moved)
  · intro t wf moved _ a u served
    have only := locksOnly_of_plain plain served
    exact ⟨only.allows wf, next t a u wf (rely s t holds moved) served only
      (refused_of_plain plain served)⟩

section Idle

variable {r : Request} {e : ImageError} {Q : r.Answer → State → Prop} (plain : r.plain = true)
  (untouched : Untouched i s)
  (next : ∀ t a u, Wf settings t → t.serve settings i r = some (a, u) → LocksOnly i t u →
    Untouched i u → Q a u)
include plain untouched next

theorem wp_idleTo {E : ImageError → State → Prop} (errs : ∀ t, Untouched i t → E e t) :
    Calls.wp (fenceDiscipline settings) i Q E (Calls.demand e r : ImageProgram _) s := by
  apply wp_plain plain (fun _ _ known rely => Untouched.rely known rely) untouched errs
  intro t a u wf known served only refused
  have still := known.plain wf only refused
  exact ⟨errs u still, next t a u wf served only still⟩

theorem wp_untouched :
    Calls.wp (fenceDiscipline settings) i Q (Explained i) (Calls.demand e r : ImageProgram _) s :=
  wp_idleTo plain untouched next (fun _ known => explained_of_unrefused known.unrefused e)

theorem wp_idle : Calls.wp (fenceDiscipline settings) i Q (fun _ t => Untouched i t)
    (Calls.demand e r : ImageProgram _) s :=
  wp_idleTo plain untouched next (fun _ known => known)

end Idle

theorem wp_read {K : State → Prop} {r : Request} {e : ImageError} {Q : r.Answer → State → Prop}
    {E : ImageError → State → Prop} (rely : ∀ s t, K s → Rely i s t → K t) (holds : K s)
    (failed : ∀ t, K t → E e t) {answer : State → r.Answer}
    (reads : ∀ t, t.serve settings i r = some (answer t, t))
    (next : ∀ t, Wf settings t → K t → Q (answer t) t) :
    Calls.wp (fenceDiscipline settings) i Q E (Calls.demand e r : ImageProgram _) s := by
  apply Calls.wp_demand
  · intro t _ moved
    exact failed t (rely s t holds moved)
  · intro t wf moved _ a u served
    rw [show (service settings).serve i t r = _ from reads t] at served
    obtain ⟨rfl, rfl⟩ := Prod.mk.inj (Option.some.inj served)
    have known := rely s t holds moved
    exact ⟨⟨wf, fun j _ => Rely.refl j t⟩, failed t known, next t wf known⟩

end Plain

section Reserving

variable {settings : Settings} {i : Nat} {s t : State}

section Locking

variable {K : State → Prop} {E : ImageError → State → Prop} {selection : Selection}
  {Q : Option CatalogRow → State → Prop} (rely : ∀ s t, K s → Rely i s t → K t)
  (kept : ∀ s locks, K s → K { s with rowLocks := locks }) (errs : ∀ t, K t → E .database t)
  (absent : ∀ u, K u → Q none u) (present : ∀ row u, K u → Locked i selection row u → Q (some row) u)
include rely kept errs absent present

theorem wp_lockFirst (ids : List Uuid) (holds : K s) :
    Calls.wp (fenceDiscipline settings) i Q E (lockFirst selection ids) s := by
  induction ids generalizing s with
  | nil => exact absent s holds
  | cons id rest ih =>
    rw [lockFirst, Calls.wp_bind]
    apply wp_plain rfl rely holds errs
    intro t answer u _ known served _ _
    obtain ⟨⟨locks, rfl⟩, locked, _⟩ := lockRow_spec served
    refine ⟨errs _ (kept t locks known), ?_⟩
    cases answer with
    | none => exact ih (kept t locks known)
    | some row => exact present row _ (kept t locks known) (locked row rfl).1

theorem wp_selectForUpdate (holds : K s) :
    Calls.wp (fenceDiscipline settings) i Q E (selectForUpdate selection) s := by
  rw [selectForUpdate, Calls.wp_bind]
  apply wp_read rely holds errs (fun _ => rfl)
  intro t _ known
  exact wp_lockFirst rely kept errs absent present _ known

end Locking

structure Ready (i : Nat) (attempt : Uuid) (s : State) : Prop extends Untouched i s where
  issued : s.issued attempt = some i

theorem Ready.rely {attempt : Uuid} (ready : Ready i attempt s) (rely : Rely i s t) :
    Ready i attempt t :=
  ⟨ready.toUntouched.rely rely, rely.issued _ ready.issued⟩

theorem Ready.plain {attempt : Uuid} (ready : Ready i attempt s) (wf : Wf settings s)
    (only : LocksOnly i s t) (refused : t.refused = s.refused) : Ready i attempt t :=
  ⟨ready.toUntouched.plain wf only refused, only.issued _ i ready.issued wf.fresh⟩

theorem Ready.reserve {res : PublishReservation} (ready : Ready i res.attempt s) (adopting : Bool)
    (now : Instant) : Reserved i res (s.reserve i res adopting now) := by
  have issued : (s.reserve i res adopting now).issued = s.issued := by
    cases adopting <;> rfl
  refine ⟨List.mem_append_right _ (List.mem_singleton_self res), ?_, ?_, ?_⟩
  · rw [issued]
    exact ready.issued
  · rw [issued]
    intro other member known
    rcases List.mem_append.mp member with old | new
    · exact absurd known (ready.unreserved other old)
    · exact List.mem_singleton.mp new
  · cases adopting <;> exact ready.unrefused

variable (request : PublishRequest) (sizeBytes : Nat) (principal : Option String)

def ReservationOf (res : PublishReservation) : Prop :=
  ∃ attempt row, res = reservation request sizeBytes principal attempt row

theorem wp_reserveRow {attempt row : Uuid} {adopting : Bool} {now : Instant}
    {Q : PublishReservation → State → Prop} (ready : Ready i attempt s)
    (next : ∀ res u, Reserved i res u → ReservationOf request sizeBytes principal res → Q res u) :
    Calls.wp (fenceDiscipline settings) i Q (Explained i) (do
      database (.reserve (reservation request sizeBytes principal attempt row) adopting now)
      pure (reservation request sizeBytes principal attempt row)) s := by
  rw [Calls.wp_bind]
  apply Calls.wp_demand
  · intro t _ _
    exact explained_database i t
  · intro t wf moved _ a u served
    have known := ready.rely moved
    simp only [service, State.serve] at served
    split at served
    · rename_i free
      obtain ⟨rfl, rfl⟩ := Prod.mk.inj (Option.some.inj served)
      have allowed := allows_reserve wf known.toUntouched known.issued ⟨rfl, rfl⟩ free adopting now
      exact ⟨allowed, explained_database i _, next _ _ (known.reserve adopting now) ⟨attempt, row, rfl⟩⟩
    · cases served

theorem wp_adoptOrInsertPending {attempt : Uuid} {now : Instant}
    {Q : PublishReservation → State → Prop} (ready : Ready i attempt s)
    (next : ∀ res u, Reserved i res u → ReservationOf request sizeBytes principal res → Q res u) :
    Calls.wp (fenceDiscipline settings) i Q (Explained i)
      (adoptOrInsertPending request sizeBytes principal attempt now) s := by
  rw [adoptOrInsertPending, Calls.wp_bind]
  refine wp_selectForUpdate (fun _ _ known rely => Ready.rely known rely) ?_ ?_ ?_ ?_ ready
  · intro s locks known
    exact ⟨⟨known.unreserved, known.unrefused⟩, known.issued⟩
  · intro t _
    exact explained_database i t
  · intro u known
    rw [Calls.wp_bind]
    apply wp_plain rfl (fun _ _ known rely => Ready.rely known rely) known
    · intro t _
      exact explained_database i t
    · intro t row u wf known _ only refused
      exact ⟨explained_database i u,
        wp_reserveRow request sizeBytes principal (known.plain wf only refused) next⟩
  · intro row u known _
    exact wp_reserveRow request sizeBytes principal known next

theorem wp_reservePublish {transaction : ImageProgram Instant} {Q : PublishReservation → State → Prop}
    (opens : ∀ attempt s, Ready i attempt s →
      Calls.wp (fenceDiscipline settings) i (fun _ t => Ready i attempt t) (Explained i) transaction s)
    (untouched : Untouched i s)
    (next : ∀ res u, Reserved i res u → ReservationOf request sizeBytes principal res → Q res u) :
    Calls.wp (fenceDiscipline settings) i Q (Explained i)
      (reservePublish request sizeBytes principal transaction) s := by
  unfold reservePublish
  split
  · exact explained_of_unrefused untouched.unrefused _
  · split
    · exact explained_of_unrefused untouched.unrefused _
    · rw [Calls.wp_bind]
      apply wp_untouched rfl untouched
      intro t attempt u wf served only known
      obtain ⟨rfl, rfl⟩ := Prod.mk.inj (Option.some.inj served)
      rw [Calls.wp_bind]
      have ready : Ready i t.nextId _ := ⟨known, by simp⟩
      refine Calls.wp_mono (opens t.nextId _ ready) ?_ (fun _ _ raised => raised)
      intro now v ready
      exact wp_adoptOrInsertPending request sizeBytes principal ready next

end Reserving

section Fencing

variable {settings : Settings} {i : Nat} {s t : State} {res : PublishReservation}

theorem Settled.plain (settled : Settled i s) (wf : Wf settings s) (only : LocksOnly i s t)
    (refused : t.refused = s.refused) : Settled i t where
  registered := by
    rw [only.reservations, only.registrations]
    intro res member known
    exact settled.registered res member (only.issuer wf member known)
  unrefused := by
    rw [refused]
    exact settled.unrefused

theorem Explained.plain {e : ImageError} (explained : Explained i e s) (wf : Wf settings s)
    (only : LocksOnly i s t) (refused : t.refused = s.refused) : Explained i e t := by
  unfold Explained
  rw [refused, only.reservations]
  intro known
  rcases explained known with database | ⟨res, member, issued, rfl⟩
  · exact .inl database
  · exact .inr ⟨res, member, only.issued _ i issued wf.fresh, rfl⟩

theorem locksOnly_checked (fenced : Fenced i res s) :
    LocksOnly i s { s with checked := Function.update s.checked i (some res) } :=
  { locksOnly_refl s with
    checked := by
      intro checked j other now
      by_cases same : j = i
      · subst same
        simp only [Function.update_self, Option.some.injEq] at now
        subst now
        exact fenced.lock
      · simp only [Function.update_of_ne same] at now
        exact checked j other now }

theorem wp_ownedBody {α : Type} {body : ImageProgram α} {Q : α → State → Prop}
    (inside : ∀ s, Fenced i res s →
      Calls.wp (fenceDiscipline settings) i Q (Explained i) body s) (fenced : Fenced i res s) :
    Calls.wp (fenceDiscipline settings) i Q (Explained i) (ownedBody res body) s := by
  rw [ownedBody, Calls.wp_bind]
  apply Calls.wp_demand
  · intro t _ _
    exact explained_database i t
  · intro t wf moved _ answer u served
    have known := fenced.rely moved
    simp only [service, State.serve] at served
    split at served
    · obtain ⟨rfl, rfl⟩ := Prod.mk.inj (Option.some.inj served)
      refine ⟨(locksOnly_checked known).allows wf, explained_database i _, ?_⟩
      exact inside _ ⟨⟨known.member, known.issued, known.only, known.unrefused⟩, known.lock⟩
    · obtain ⟨rfl, rfl⟩ := Prod.mk.inj (Option.some.inj served)
      refine ⟨(locksOnly_refused t i).allows wf, explained_database i _, ?_⟩
      exact fun _ => .inr ⟨res, known.member, known.issued, rfl⟩

theorem wp_publicationFence {α : Type} {body : ImageProgram α}
    (inside : ∀ s, Fenced i res s →
      Calls.wp (fenceDiscipline settings) i (fun _ t => Settled i t) (Explained i) body s)
    (reserved : Reserved i res s) :
    Calls.wp (fenceDiscipline settings) i (fun _ t => Settled i t) (Explained i)
      (publicationFence res body) s := by
  rw [publicationFence, Calls.wp_bind]
  apply wp_plain rfl (fun _ _ known rely => Reserved.rely known rely) reserved
  · intro t _
    exact explained_database i t
  · intro t _ u wf known served only refused
    refine ⟨explained_database i u, ?_⟩
    have fenced : Fenced i res u := by
      refine ⟨known.plain wf only refused, ?_⟩
      simp only [State.serve] at served
      split at served
      · obtain rfl := Calls.state_eq served
        simp
      · cases served
    rw [Calls.wp_ensure]
    refine Calls.wp_mono (wp_ownedBody inside fenced) ?_ ?_
    · intro _ v settled
      apply wp_plain rfl (fun _ _ known rely => Settled.rely known rely) settled
      · intro t _
        exact explained_database i t
      · intro t _ u wf known _ only refused
        exact ⟨explained_database i u, known.plain wf only refused⟩
    · intro e v explained
      apply wp_plain rfl (fun _ _ known rely => Explained.rely known rely) explained
      · intro t _
        exact explained_database i t
      · intro t _ u wf known _ only refused
        exact ⟨explained_database i u, known.plain wf only refused⟩

end Fencing

section Writing

variable {settings : Settings} {i : Nat} {s t : State} {res : PublishReservation}

structure Written (i : Nat) (res : PublishReservation) (s : State) : Prop extends Fenced i res s where
  evident : Evident res s

theorem Written.rely (written : Written i res s) (rely : Rely i s t) : Written i res t where
  toFenced := written.toFenced.rely rely
  evident := written.evident.rely written.member written.lock rely

theorem Fenced.put (fenced : Fenced i res s) (attempt : Uuid) (key : Key) (content : Bytes)
    (checksum : Option Checksum) : Fenced i res (s.put settings attempt key content checksum).2 := by
  unfold State.put
  split
  · exact ⟨⟨fenced.member, fenced.issued, fenced.only, fenced.unrefused⟩, fenced.lock⟩
  · exact fenced

theorem Written.put (written : Written i res s) (attempt : Uuid) {key : Key}
    (other : key ≠ .image res.objectKey) (content : Bytes) (checksum : Option Checksum) :
    Written i res (s.put settings attempt key content checksum).2 := by
  refine ⟨written.toFenced.put attempt key content checksum, ?_⟩
  unfold State.put
  split
  · unfold Evident
    rw [show ∀ o : Object Key Checksum, o.key = key →
      (s.store.put o).find (.image res.objectKey) none = s.store.find (.image res.objectKey) none from
      fun o isKey => Store.find_put_other (isKey ▸ other)]
    · exact written.evident
    · rfl
  · exact written.evident

theorem wp_putObject (fenced : Fenced i res s) {content : Bytes} {checksum : Option Checksum}
    {Q : Bool → State → Prop} (next : ∀ accepted u, Fenced i res u → Q accepted u) :
    Calls.wp (fenceDiscipline settings) i Q (Explained i)
      (storeCall (.put res.attempt (.image res.objectKey) content checksum)) s := by
  apply Calls.wp_demand
  · intro t _ moved
    exact explained_of_unrefused (fenced.rely moved).unrefused _
  · intro t wf moved _ answer u served
    obtain ⟨rfl, rfl⟩ := Prod.mk.inj (Option.some.inj served)
    have known := fenced.rely moved
    have after := @Fenced.put settings _ _ _ known res.attempt (.image res.objectKey) content checksum
    refine ⟨allows_put wf (exclusive_of_lock wf known.member known.lock) ?_,
      explained_of_unrefused after.unrefused _, next _ _ after⟩
    rintro k a ⟨rfl⟩ isAttempt _
    rw [(wf.keys res known.member).1] at isAttempt
    exact (Option.some.inj isAttempt).symm

theorem wp_writeConfig (written : Written i res s)
    (isConfig : ∀ key, res.configKey = some key → key.suffix = .config) :
    Calls.wp (fenceDiscipline settings) i (fun _ t => Written i res t) (Explained i)
      (writeConfigBestEffort res) s := by
  unfold writeConfigBestEffort
  split
  · rename_i key config isKey _
    have suffix := isConfig key isKey
    rw [Calls.wp_bind]
    apply Calls.wp_ask
    · intro t _ moved
      exact written.rely moved
    · intro t wf moved _ answer u served
      have outcome : t.put settings res.attempt (.image key) config none = (answer, u) :=
        Option.some.inj served
      have known := written.rely moved
      have elsewhere : ∀ other ∈ t.reservations, (.image key : Key) ≠ .image other.objectKey := by
        rintro other member ⟨rfl⟩
        rw [(wf.keys other member).2] at suffix
        cases suffix
      have after : Written i res (t.put settings res.attempt (.image key) config none).2 :=
        known.put res.attempt (elsewhere res known.member) config none
      have allowed : Calls.Allows (fenceDiscipline settings) i t
          (t.put settings res.attempt (.image key) config none).2 := by
        apply allows_put wf
        · intro other member same
          exact absurd same (elsewhere other member)
        · rintro k a ⟨rfl⟩ _ qcow2
          rw [suffix] at qcow2
          cases qcow2
      rw [outcome] at after allowed
      refine ⟨allowed, after, ?_⟩
      cases answer with
      | false => exact after
      | true =>
        rw [Calls.wp_bind]
        apply Calls.wp_ask
        · intro v _ moved
          exact after.rely moved
        · intro v wf moved _ answer u served
          obtain ⟨rfl, rfl⟩ := Prod.mk.inj (Option.some.inj served)
          have still := after.rely moved
          refine ⟨⟨wf, fun j _ => Rely.refl j v⟩, still, ?_⟩
          split <;> exact still
  · exact written

theorem wp_writePublishObject {data : Bytes} (fenced : Fenced i res s)
    (size : res.sizeBytes = data.length)
    (isConfig : ∀ key, res.configKey = some key → key.suffix = .config) :
    Calls.wp (fenceDiscipline settings) i (fun _ t => Written i res t) (Explained i)
      (writePublishObject settings res data) s := by
  unfold writePublishObject
  split
  · exact explained_of_unrefused fenced.unrefused _
  · rw [Calls.wp_bind]
    apply wp_putObject fenced
    intro accepted t fenced
    cases accepted with
    | false => exact explained_of_unrefused fenced.unrefused _
    | true =>
      change Calls.wp _ i _ _ (storeCall (.head (.image res.objectKey)) >>= fun head =>
        headGate res data head >>= fun _ => writeConfigBestEffort res) t
      rw [Calls.wp_bind]
      apply wp_read (fun _ _ known rely => Fenced.rely known rely) fenced
        (fun t known => explained_of_unrefused known.unrefused _) (fun _ => rfl)
      intro t _ fenced
      rw [Calls.wp_bind]
      unfold headGate
      split
      · exact explained_of_unrefused fenced.unrefused _
      · rename_i head there
        split
        · rename_i passes
          obtain ⟨sized, summed, digest⟩ := passes
          apply wp_writeConfig ⟨fenced, ?_⟩ isConfig
          rw [Store.head, Option.map_eq_some_iff] at there
          obtain ⟨⟨version, object⟩, found, rfl⟩ := there
          exact ⟨version, object, found, sized.trans size.symm, summed, digest⟩
        · exact explained_of_unrefused fenced.unrefused _

end Writing

section Publishing

variable {settings : Settings} {i : Nat} {s t : State} {res : PublishReservation}

theorem register_spec (fenced : Fenced i res s) (clearConfig : Bool) {answer : Registering}
    (answered : s.register i res clearConfig = (answer, t)) :
    res ∈ t.reservations ∧ t.issued res.attempt = some i ∧
      ((answer = .superseded) ∨ (answer = .duplicate ∧ t.refused i = false) ∨
        ((∃ row, answer = .registered row) ∧ Settled i t)) := by
  unfold State.register at answered
  split at answered
  · obtain ⟨rfl, rfl⟩ := Prod.mk.inj answered
    exact ⟨fenced.member, fenced.issued, .inl rfl⟩
  · rename_i row found
    obtain ⟨found, registers⟩ := Option.filter_eq_some_iff.mp found
    have holds : row.attempt = some res.attempt := by
      simp only [PublishReservation.registers, Bool.and_eq_true, beq_iff_eq] at registers
      exact registers.1.1.2
    split at answered
    · obtain ⟨rfl, rfl⟩ := Prod.mk.inj answered
      exact ⟨fenced.member, fenced.issued, .inr (.inl ⟨rfl, fenced.unrefused⟩)⟩
    · obtain ⟨rfl, rfl⟩ := Prod.mk.inj answered
      refine ⟨fenced.member, fenced.issued, .inr (.inr ⟨⟨_, rfl⟩, ?_, fenced.unrefused⟩)⟩
      intro other member known
      obtain rfl := fenced.only other member known
      exact ⟨_, List.mem_append_right _ (List.mem_singleton_self _), holds⟩

theorem wp_finishPublish (written : Written i res s) (configWritten : Bool) :
    Calls.wp (fenceDiscipline settings) i (fun _ t => Settled i t) (Explained i)
      (finishPublish res configWritten) s := by
  rw [finishPublish, Calls.wp_bind]
  apply Calls.wp_demand
  · intro t _ _
    exact explained_database i t
  · intro t wf moved _ answer u served
    have known := written.rely moved
    simp only [service, State.serve] at served
    split at served
    · rename_i free
      have answered := Option.some.inj served
      have allowed := allows_register wf known.member known.evident free
        (res.configKey.isSome && !configWritten)
      rw [answered] at allowed
      refine ⟨allowed, explained_database i u, ?_⟩
      obtain ⟨member, issued, rfl | ⟨rfl, unrefused⟩ | ⟨⟨row, rfl⟩, settled⟩⟩ :=
        register_spec known.toFenced _ answered
      · exact fun _ => .inr ⟨res, member, issued, rfl⟩
      · exact explained_of_unrefused unrefused _
      · exact settled
    · cases served

theorem ReservationOf.size {request : PublishRequest} {sizeBytes : Nat} {principal : Option String}
    (isReservation : ReservationOf request sizeBytes principal res) : res.sizeBytes = sizeBytes := by
  obtain ⟨attempt, row, rfl⟩ := isReservation
  rfl

theorem ReservationOf.config {request : PublishRequest} {sizeBytes : Nat}
    {principal : Option String} (isReservation : ReservationOf request sizeBytes principal res)
    (key : ImageKey) (isKey : res.configKey = some key) : key.suffix = .config := by
  obtain ⟨attempt, row, rfl⟩ := isReservation
  obtain ⟨_, _, rfl⟩ := Option.map_eq_some_iff.mp isKey
  rfl

theorem wp_publishImage (request : PublishRequest) (source : Bytes) (principal : Option String)
    (untouched : Untouched i s) :
    Calls.wp (fenceDiscipline settings) i (fun _ t => Settled i t) (Explained i)
      (publishImage settings request source principal) s := by
  rw [publishImage, Calls.wp_bind]
  apply wp_reservePublish request source.length principal _ untouched
  · intro res t reserved isReservation
    refine wp_publicationFence ?_ reserved
    intro u fenced
    rw [Calls.wp_bind]
    refine Calls.wp_mono (wp_writePublishObject fenced isReservation.size isReservation.config) ?_
      (fun _ _ raised => raised)
    intro configWritten v written
    exact wp_finishPublish written configWritten
  · intro attempt t ready
    exact wp_read (fun _ _ known rely => Ready.rely known rely) ready
      (fun u _ => explained_database i u) (fun _ => rfl) (fun _ _ known => known)

end Publishing

section Uploading

variable {settings : Settings} {i : Nat} {s t : State} {res : PublishReservation}

theorem wp_reserveUnderQuota (request : PublishRequest) (project principal : String)
    (newBytes : Nat) {Q : PublishReservation → State → Prop} (untouched : Untouched i s)
    (next : ∀ res u, Reserved i res u → ReservationOf request newBytes (some principal) res →
      Q res u) :
    Calls.wp (fenceDiscipline settings) i Q (Explained i)
      (reserveUnderQuota settings request project principal newBytes) s := by
  have denied : ∀ (e : ImageError) s, Untouched i s →
      Calls.wp (fenceDiscipline settings) i Q (Explained i) (do
        database .endTransaction
        Calls.throw e) s := by
    intro e s untouched
    rw [Calls.wp_bind]
    apply wp_untouched rfl untouched
    intro _ _ _ _ _ _ known
    exact explained_of_unrefused known.unrefused e
  rw [reserveUnderQuota, Calls.wp_bind]
  apply wp_untouched rfl untouched
  intro _ now _ _ _ _ untouched
  rw [Calls.wp_bind]
  apply wp_untouched rfl untouched
  intro _ _ _ _ _ _ untouched
  rw [Calls.wp_bind]
  apply wp_untouched rfl untouched
  intro _ taken _ _ _ _ untouched
  cases taken with
  | true => exact denied _ _ untouched
  | false =>
    change Calls.wp _ i _ _ (selectForUpdate (.adoption request true) >>= _) _
    have counted : ∀ (decision : Nat × Nat → ImageProgram PublishReservation),
        (∀ usage u, Untouched i u →
          Calls.wp (fenceDiscipline settings) i Q (Explained i) (decision usage) u) →
        ∀ (adopting : Option CatalogRow) s, Untouched i s →
          Calls.wp (fenceDiscipline settings) i Q (Explained i) (database
            (.projectUsage ⟨project, request, newBytes⟩ (adopting.map CatalogRow.id)) >>=
              decision) s := by
      intro decision decided adopting s untouched
      rw [Calls.wp_bind]
      apply wp_untouched rfl untouched
      intro _ usage u _ _ _ untouched
      exact decided usage u untouched
    rw [Calls.wp_bind]
    refine wp_selectForUpdate (fun _ _ known rely => Untouched.rely known rely) ?_ ?_
      (counted _ ?_ none) (fun row u known _ => counted _ ?_ (some row) u known)
      untouched
    · exact fun s locks known => ⟨known.unreserved, known.unrefused⟩
    · exact fun t _ => explained_database i t
    all_goals
      intro usage u untouched
      split
      · exact wp_reservePublish request newBytes (some principal) (fun _ _ ready => ready) untouched
          next
      · exact denied _ _ untouched

theorem wp_publishUnderQuota (request : PublishRequest) (project principal : String)
    (source : Bytes) (untouched : Untouched i s) :
    Calls.wp (fenceDiscipline settings) i (fun _ t => Settled i t) (Explained i)
      (publishUnderQuota settings request project principal source) s := by
  rw [publishUnderQuota, Calls.wp_bind]
  apply wp_reserveUnderQuota request project principal source.length untouched
  intro res t reserved isReservation
  refine wp_publicationFence ?_ reserved
  intro u fenced
  rw [Calls.wp_bind]
  refine Calls.wp_mono (wp_writePublishObject fenced isReservation.size isReservation.config) ?_
    (fun _ _ raised => raised)
  intro configWritten v written
  rw [Calls.wp_bind]
  apply wp_read (fun _ _ known rely => Written.rely known rely) written
    (fun u _ => explained_database i u) (fun _ => rfl)
  intro v _ written
  rw [Calls.wp_bind]
  apply wp_plain rfl (fun _ _ known rely => Written.rely known rely) written
    (fun u _ => explained_database i u)
  intro v _ u _ known served _ _
  simp only [State.serve] at served
  split at served
  · obtain rfl := Calls.state_eq served
    refine ⟨explained_database i _, wp_finishPublish ?_ configWritten⟩
    exact ⟨⟨⟨known.member, known.issued, known.only, known.unrefused⟩, known.lock⟩, known.evident⟩
  · cases served

theorem wp_registerPrivateUpload (upload : PrivateUploadRequest) (now : Instant)
    (untouched : Untouched i s) :
    Calls.wp (fenceDiscipline settings) i (fun _ t => Settled i t) (Explained i)
      (registerPrivateUpload settings upload now) s := by
  unfold registerPrivateUpload
  split
  · exact explained_of_unrefused untouched.unrefused _
  · rw [Calls.wp_bind]
    apply wp_untouched rfl untouched
    intro _ head t _ _ _ untouched
    cases head with
    | none => exact explained_of_unrefused untouched.unrefused _
    | some head =>
      dsimp only
      split
      · exact explained_of_unrefused untouched.unrefused _
      · rw [Calls.wp_bind]
        apply wp_untouched rfl untouched
        intro _ data t _ _ _ untouched
        cases data with
        | none => exact explained_of_unrefused untouched.unrefused _
        | some data =>
          dsimp only
          split
          · exact explained_of_unrefused untouched.unrefused _
          · exact wp_publishUnderQuota _ _ _ _ untouched

end Uploading

section Repairing

variable {settings : Settings} {i : Nat} {s t : State} {entry : CatalogRow}
  {res : PublishReservation}

structure Caught (i : Nat) (entry : CatalogRow) (s : State) : Prop extends Untouched i s where
  publish : ∃ session, s.publishLocks entry.id = some ⟨i, session⟩
  lock : s.rowLocks entry.id = some i
  found : Table.find s.catalog entry.id = some entry

structure Backed (i : Nat) (entry : CatalogRow) (res : PublishReservation) (s : State) : Prop
    extends Caught i entry s where
  member : res ∈ s.reservations
  holds : entry.attempt = some res.attempt
  isRow : res.row = entry.id

theorem Caught.rely (caught : Caught i entry s) (rely : Rely i s t) : Caught i entry t := by
  obtain ⟨session, publish⟩ := caught.publish
  obtain ⟨lock, same⟩ := rely.rows entry.id caught.lock
  exact ⟨caught.toUntouched.rely rely, ⟨session, rely.publish _ _ publish⟩, lock,
    same.trans caught.found⟩

theorem Backed.rely (backed : Backed i entry res s) (rely : Rely i s t) : Backed i entry res t :=
  ⟨backed.toCaught.rely rely, rely.kept backed.member, backed.holds, backed.isRow⟩

theorem Caught.free (caught : Caught i entry s) : s.rowFree i entry.id = true := by
  simp [State.rowFree, caught.lock]

theorem Caught.backed (caught : Caught i entry s) (wf : Wf settings s)
    (pending : entry.state = .pending) : ∃ res, Backed i entry res s ∧
      entry.objectKey = some res.objectKey ∧ entry.digest = some res.request.digest ∧
      entry.sizeBytes = res.sizeBytes := by
  have member := Table.find_mem caught.found
  obtain ⟨a, holds⟩ := Option.ne_none_iff_exists'.mp (wf.pending entry member pending)
  obtain ⟨_, res, reserved, rfl, isRow, described⟩ := wf.owned entry member a holds
  exact ⟨res, ⟨caught, reserved, holds, isRow⟩, described⟩

theorem wp_conclude {terminal : Bool} (untouched : Untouched i s) :
    Calls.wp (fenceDiscipline settings) i (fun _ t => Untouched i t) (fun _ t => Untouched i t) (do
      database .endTransaction
      pure terminal) s := by
  rw [Calls.wp_bind]
  exact wp_idle rfl untouched (fun _ _ _ _ _ _ known => known)

theorem wp_deleteEntry (caught : Caught i entry s) :
    Calls.wp (fenceDiscipline settings) i (fun _ t => Untouched i t) (fun _ t => Untouched i t) (do
      database (.deleteRow entry.id)
      pure true) s := by
  rw [Calls.wp_bind]
  apply Calls.wp_demand
  · intro t _ moved
    exact (caught.rely moved).toUntouched
  · intro t wf moved _ _ u served
    have known := caught.rely moved
    simp only [service, State.serve, known.free, if_true] at served
    obtain rfl := Calls.state_eq served
    have still : Untouched i
        ({ t with catalog := Table.delete t.catalog (·.id == entry.id) }.endTransaction i) :=
      ⟨known.unreserved, known.unrefused⟩
    exact ⟨allows_deleteRow wf known.free, still, still⟩

theorem Untouched.registerRow (untouched : Untouched i s) (row : Uuid) (clearConfig : Bool) :
    Untouched i (s.registerRow i row clearConfig).2 := by
  unfold State.registerRow
  split
  · exact ⟨untouched.unreserved, untouched.unrefused⟩
  · split <;> exact ⟨untouched.unreserved, untouched.unrefused⟩

theorem wp_recoverPending (backed : Backed i entry res s) (evident : Evident res s) :
    Calls.wp (fenceDiscipline settings) i (fun _ t => Untouched i t) (fun _ t => Untouched i t)
      (recoverPending entry) s := by
  have stays : ∀ s t, Backed i entry res s ∧ Evident res s → Rely i s t →
      Backed i entry res t ∧ Evident res t := by
    rintro s t ⟨backed, evident⟩ rely
    obtain ⟨session, publish⟩ := backed.publish
    rw [← backed.isRow] at publish
    exact ⟨backed.rely rely, evident.rely backed.member publish rely⟩
  have registers : ∀ clearConfig s, Backed i entry res s ∧ Evident res s →
      Calls.wp (fenceDiscipline settings) i (fun _ t => Untouched i t) (fun _ t => Untouched i t)
        (registerEntry entry clearConfig) s := by
    intro clearConfig s holds
    rw [registerEntry, Calls.wp_bind]
    apply Calls.wp_demand
    · intro t _ moved
      exact (stays s t holds moved).1.toUntouched
    · intro t wf moved _ answer u served
      obtain ⟨known, evident⟩ := stays s t holds moved
      simp only [service, State.serve, known.free, if_true] at served
      have answered := Option.some.inj served
      have allowed := allows_registerRow wf known.found known.holds known.member evident known.free
        clearConfig
      have still := known.toUntouched.registerRow entry.id clearConfig
      rw [answered] at allowed still
      refine ⟨allowed, still, ?_⟩
      cases answer <;> exact still
  rw [recoverPending, Calls.wp_bind]
  unfold configAbsent
  split
  · rw [Calls.wp_bind]
    apply wp_read stays ⟨backed, evident⟩ (fun _ known => known.1.toUntouched) (fun _ => rfl)
    intro t _ known
    exact registers _ t known
  · exact registers _ s ⟨backed, evident⟩

theorem wp_reclaimInvalid {key : ImageKey} {version : Nat} {object : Object Key Checksum}
    (backed : Backed i entry res s) (isKey : key = res.objectKey)
    (here : s.store.objects[version]? = some object) (objectKey : object.key = .image key) :
    Calls.wp (fenceDiscipline settings) i (fun _ t => Untouched i t) (fun _ t => Untouched i t)
      (reclaimInvalid entry key version) s := by
  rw [reclaimInvalid, Calls.wp_bind]
  apply Calls.wp_demand
  · intro t _ moved
    exact (backed.rely moved).toUntouched
  · intro t wf moved _ _ u served
    have known := backed.rely moved
    obtain rfl := Calls.state_eq served
    obtain ⟨session, publish⟩ := known.publish
    have exclusive : Exclusive i t object.key := by
      rw [objectKey, isKey]
      exact exclusive_of_lock wf known.member (known.isRow ▸ publish)
    have still : Caught i entry { t with store := t.store.remove version } :=
      ⟨⟨known.unreserved, known.unrefused⟩, known.publish, known.lock, known.found⟩
    refine ⟨allows_deleteVersion wf (moved.versions _ _ here) exclusive, still.toUntouched, ?_⟩
    rw [Calls.wp_bind]
    apply wp_read (fun _ _ known rely => Caught.rely known rely) still
      (fun _ known => known.toUntouched) (fun _ => rfl)
    intro v _ known
    split
    · exact wp_conclude known.toUntouched
    · exact wp_deleteEntry known

theorem wp_repairPending {key : ImageKey} (caught : Caught i entry s) (wf : Wf settings s)
    (pending : entry.state = .pending) (isKey : entry.objectKey = some key) :
    Calls.wp (fenceDiscipline settings) i (fun _ t => Untouched i t) (fun _ t => Untouched i t)
      (repairPendingCandidate entry key (s.store.head (.image key) none)) s := by
  obtain ⟨res, backed, resKey, resDigest, resSize⟩ := caught.backed wf pending
  obtain rfl : key = res.objectKey := Option.some.inj (isKey.symm.trans resKey)
  unfold repairPendingCandidate
  cases there : s.store.head (.image res.objectKey) none with
  | none => exact wp_deleteEntry caught
  | some head =>
    dsimp only
    rw [Store.head, Option.map_eq_some_iff] at there
    obtain ⟨⟨version, object⟩, found, rfl⟩ := there
    obtain ⟨here, objectKey, _⟩ := Store.find_spec found
    split
    · rename_i valid
      simp only [validEvidence, resDigest, Option.bind_some, Bool.and_eq_true, beq_iff_eq] at valid
      obtain ⟨⟨⟨expected, size⟩, sum⟩, _⟩ := valid
      apply wp_recoverPending backed
      exact ⟨version, object, found, size.trans resSize, by rw [sum]; exact expected, sum⟩
    · exact wp_reclaimInvalid backed rfl here objectKey

theorem wp_repairLocked (caught : Caught i entry s) :
    Calls.wp (fenceDiscipline settings) i (fun _ t => Untouched i t) (fun _ t => Untouched i t)
      (repairLocked entry) s := by
  unfold repairLocked
  cases isKey : entry.objectKey with
  | none => exact caught.toUntouched
  | some key =>
    dsimp only
    rw [Calls.wp_bind]
    apply wp_read (fun _ _ known rely => Caught.rely known rely) caught
      (fun _ known => known.toUntouched) (fun _ => rfl)
    intro t wf known
    cases state : entry.state with
    | registered =>
      dsimp only
      unfold repairRegisteredCandidate
      split
      · exact wp_conclude known.toUntouched
      · exact wp_deleteEntry known
    | pending => exact wp_repairPending known wf state isKey
    | defined => exact wp_conclude known.toUntouched

theorem tryLockPublish_spec {row : Uuid}
    (served : s.serve settings i (.tryLockPublish row) = some (true, t)) :
    ∃ session, t.publishLocks row = some ⟨i, session⟩ := by
  simp only [State.serve] at served
  split at served
  · rename_i free
    obtain rfl := Calls.state_eq served
    cases held : s.publishLocks row with
    | none => exact ⟨false, by simp⟩
    | some hold =>
      have mine : hold.holder = i := by simpa [State.publishFree, held] using free
      exact ⟨hold.session, by simp [← mine]⟩
  · simp at served

theorem wp_repairImageCandidate (grace : Duration) (candidate : Candidate)
    (untouched : Untouched i s) :
    Calls.wp (fenceDiscipline settings) i (fun _ t => Untouched i t) (fun _ t => Untouched i t)
      (repairImageCandidate grace candidate) s := by
  rw [repairImageCandidate, Calls.wp_bind]
  apply wp_idle rfl untouched
  intro _ now _ _ _ _ untouched
  rw [Calls.wp_bind]
  apply wp_idle rfl untouched
  intro t taken u _ served _ untouched
  cases taken with
  | false => exact wp_conclude untouched
  | true =>
    have publish := tryLockPublish_spec served
    change Calls.wp _ i _ _ (selectForUpdate (.repair candidate (now - grace)) >>= _) u
    rw [Calls.wp_bind]
    refine @wp_selectForUpdate settings i u
      (fun s => Untouched i s ∧ ∃ session, s.publishLocks candidate.id = some ⟨i, session⟩)
      _ _ _ ?_ ?_ ?_ ?_ ?_ ⟨untouched, publish⟩
    · rintro s t ⟨known, session, held⟩ rely
      exact ⟨known.rely rely, session, rely.publish _ _ held⟩
    · rintro s locks ⟨known, held⟩
      exact ⟨⟨known.unreserved, known.unrefused⟩, held⟩
    · exact fun _ known => known.1
    · exact fun v known => wp_conclude known.1
    · rintro row v ⟨known, held⟩ locked
      have isRow : row.id = candidate.id := by
        have selected := locked.selected
        simp only [Selection.holds, Bool.and_eq_true, beq_iff_eq] at selected
        exact selected.1.1.1.1.1
      exact wp_repairLocked ⟨known, isRow ▸ held, locked.lock, locked.found⟩

theorem wp_repairAll (grace : Duration) (candidates : List Candidate) (untouched : Untouched i s) :
    Calls.wp (fenceDiscipline settings) i (fun _ t => Untouched i t) (fun _ t => Untouched i t)
      (repairAll grace candidates) s := by
  induction candidates generalizing s with
  | nil => exact untouched
  | cons candidate rest ih =>
    rw [repairAll, Calls.wp_bind, Calls.wp_rescue]
    have others : ∀ (terminal : Bool) s, Untouched i s →
        Calls.wp (fenceDiscipline settings) i (fun _ t => Untouched i t) (fun _ t => Untouched i t)
          (do
            let others ← repairAll grace rest
            pure (others + if terminal then 1 else 0)) s := by
      intro terminal s untouched
      rw [Calls.wp_bind]
      exact ih untouched
    refine Calls.wp_mono (wp_repairImageCandidate grace candidate untouched) others ?_
    intro e t known
    unfold skipCategorized
    split
    · refine Calls.wp_mono (wp_conclude known) others (fun _ _ raised => raised)
    · exact known

theorem wp_repairDanglingImages (grace : Duration) (untouched : Untouched i s) :
    Calls.wp (fenceDiscipline settings) i (fun _ t => Untouched i t) (fun _ t => Untouched i t)
      (repairDanglingImages grace) s := by
  rw [repairDanglingImages, Calls.wp_bind]
  apply wp_idle rfl untouched
  intro _ now _ _ _ _ untouched
  rw [Calls.wp_bind]
  apply wp_idle rfl untouched
  intro _ candidates _ _ _ _ untouched
  rw [Calls.wp_bind]
  apply wp_idle rfl untouched
  intro _ _ _ _ _ _ untouched
  exact wp_repairAll grace candidates untouched

end Repairing

section Runs

variable (settings : Settings)

abbrev Config := Calls.Config State Request Request.Answer ImageError Result

def step : Config → Calls.Event Operation → Config :=
  Calls.step (service settings) (program settings)

/-- No attempt is under way. Objects that attempts have stored before are on record, and the
checksums that the store reports are the contents'. -/
structure Start (s : State) : Prop where
  idle : ∀ row ∈ s.catalog.rows, row.attempt = none ∧ row.state ≠ .pending
  issued : ∀ a, s.issued a = none
  reservations : s.reservations = []
  adopted : s.adopted = []
  registrations : s.registrations = []
  checked : ∀ i, s.checked i = none
  refused : ∀ i, s.refused i = false
  honest : ∀ (v : Nat) (o : Object Key Checksum), s.store.objects[v]? = some o →
    ∀ c, o.checksum = some c → c = settings.sha256 o.content
  stored : ∀ (v : Nat) (o : Object Key Checksum) (key : ImageKey) a, s.store.objects[v]? = some o →
    o.key = .image key → key.attempt = some a → key.suffix = .qcow2 → ⟨a, v⟩ ∈ s.stored

def Recorded (start s : State) : Prop :=
  ∀ row ∈ s.catalog.rows, row.state = .registered → row ∈ start.catalog.rows ∨
    ∃ g ∈ s.registrations, ∃ clearConfig, row = g.row.registered clearConfig

variable {settings} {start s t : State}

theorem Recorded.flip (recorded : Recorded start s) {row : CatalogRow} (member : row ∈ s.catalog.rows)
    (clearConfig : Bool) : Recorded start (s.flip row clearConfig) := by
  intro row' member' registered
  rcases mem_updateRow (registered_id clearConfig) member' with ⟨old, _⟩ | ⟨old, here, isRow, rfl⟩
  · rcases recorded row' old registered with before | ⟨g, past, isLeft⟩
    · exact .inl before
    · exact .inr ⟨g, List.mem_append_left _ past, isLeft⟩
  · obtain rfl := Table.row_unique here member isRow
    exact .inr ⟨_, List.mem_append_right _ (List.mem_singleton_self _), clearConfig, rfl⟩

theorem Recorded.register (recorded : Recorded start s) (i : Nat) (res : PublishReservation)
    (clearConfig : Bool) : Recorded start (s.register i res clearConfig).2 := by
  unfold State.register
  split
  · exact recorded
  · rename_i row found
    split
    · exact recorded
    · exact recorded.flip (Table.find_mem (Option.filter_eq_some_iff.mp found).1) clearConfig

theorem Recorded.registerRow (recorded : Recorded start s) (i : Nat) (row : Uuid)
    (clearConfig : Bool) : Recorded start (s.registerRow i row clearConfig).2 := by
  unfold State.registerRow
  split
  · exact recorded
  · rename_i row found
    split
    · exact recorded
    · exact recorded.flip (Table.find_mem found) clearConfig

theorem Recorded.put (recorded : Recorded start s) (attempt : Uuid) (key : Key) (content : Bytes)
    (checksum : Option Checksum) :
    Recorded start (s.put settings attempt key content checksum).2 := by
  unfold State.put
  split <;> exact recorded

theorem recorded_serve {i : Nat} {r : Request} {a : r.Answer}
    (served : s.serve settings i r = some (a, t)) (recorded : Recorded start s) :
    Recorded start t := by
  by_cases plain : r.plain = true
  · have only := locksOnly_of_plain plain served
    unfold Recorded
    rw [only.catalog, only.registrations]
    exact recorded
  cases r with
  | reserve res adopting now =>
    simp only [State.serve] at served
    split at served
    · obtain rfl := Calls.state_eq served
      have same : (s.reserve i res adopting now).registrations = s.registrations := by
        cases adopting <;> rfl
      intro row member registered
      rw [same]
      rcases mem_claimed member with ⟨old, _⟩ | new
      · exact recorded row old registered
      · rw [new.pending] at registered
        cases registered
    · cases served
  | assertOwner res =>
    simp only [State.serve] at served
    split at served <;>
    · obtain rfl := Calls.state_eq served
      exact recorded
  | register res clearConfig =>
    simp only [State.serve] at served
    split at served
    · obtain rfl : (s.register i res clearConfig).2 = t := congrArg Prod.snd (Option.some.inj served)
      exact recorded.register i res clearConfig
    · cases served
  | registerRow row clearConfig =>
    simp only [State.serve] at served
    split at served
    · obtain rfl : (s.registerRow i row clearConfig).2 = t :=
        congrArg Prod.snd (Option.some.inj served)
      exact recorded.registerRow i row clearConfig
    · cases served
  | deleteRow row =>
    simp only [State.serve] at served
    split at served
    · obtain rfl := Calls.state_eq served
      intro row' member
      exact recorded row' (Table.mem_delete.mp member).1
    · cases served
  | put attempt key content checksum =>
    obtain rfl : (s.put settings attempt key content checksum).2 = t :=
      congrArg Prod.snd (Option.some.inj served)
    exact recorded.put attempt key content checksum
  | deleteVersion key version =>
    obtain rfl := Calls.state_eq served
    exact recorded
  | _ => exact absurd rfl plain

theorem Start.wf (begins : Start settings s) : Wf settings s where
  fresh := fun a _ => begins.issued a
  issued := by simp [begins.reservations]
  unique := by simp [begins.reservations]
  keys := by simp [begins.reservations]
  owned := by
    intro row member a holds
    rw [(begins.idle row member).1] at holds
    cases holds
  pending := fun row member pending => absurd pending (begins.idle row member).2
  adopted := by simp [begins.adopted]
  registered := by simp [begins.registrations]
  checked := by
    intro i res now
    rw [begins.checked i] at now
    cases now
  honest := begins.honest
  stored := begins.stored

theorem wp_program (operation : Operation) (i : Nat) (s : State)
    (fresh : (fenceDiscipline settings).fresh i s) :
    Calls.wp (fenceDiscipline settings) i (fun _ t => Settled i t) (Explained i)
      (program settings operation) s := by
  have untouched : Untouched i s := ⟨fun res _ known => fresh.2 _ known, fresh.1⟩
  cases operation with
  | publish request source principal =>
    rw [program, Calls.wp_bind]
    exact wp_publishImage request source principal untouched
  | upload request now =>
    rw [program, Calls.wp_bind]
    exact wp_registerPrivateUpload request now untouched
  | repair grace =>
    rw [program, Calls.wp_bind]
    refine Calls.wp_mono (wp_repairDanglingImages grace untouched) ?_ ?_
    · exact fun _ t known => known.settled
    · exact fun e t known => explained_of_unrefused known.unrefused e
  | wait delay =>
    rw [program, Calls.wp_bind]
    exact wp_untouched rfl untouched (fun _ _ _ _ _ _ known => known.settled)

structure FenceKept (settings : Settings) (start : State) (c : Config) : Prop where
  recorded : Recorded start c.state
  faithful : ∀ g ∈ c.state.registrations, ∃ a, g.row.attempt = some a ∧
    Faithful settings c.state g a
  superseded : ∀ a ∈ c.state.adopted, ∀ g ∈ c.state.registrations, g.row.attempt ≠ some a
  told : ∀ res : PublishReservation, res.attempt ∈ c.state.adopted →
    (Table.find c.state.catalog res.row).any res.owns = false ∧
      ∀ i clearConfig, (c.state.register i res clearConfig).1 = .superseded
  unsuccessful : ∀ i, ∀ res ∈ c.state.reservations, c.state.issued res.attempt = some i →
    res.attempt ∈ c.state.adopted → ∀ result, ¬ c.At i (.done result)
  conflict : ∀ i, c.state.refused i = true → (∀ result, ¬ c.At i (.done result)) ∧
    ∀ e, c.At i (.raise e) → e = .database ∨
      ∃ res ∈ c.state.reservations, c.state.issued res.attempt = some i ∧ e = supersededError res
  exclusive : ∀ i j res res', c.state.checked i = some res → c.state.checked j = some res' →
    res.row = res'.row → i = j

theorem fenceKept_of_accounted {c : Config} (recorded : Recorded start c.state)
    (ok : Calls.Accounted (fenceDiscipline settings) (fun i _ s => Settled i s) Explained c) :
    FenceKept settings start c := by
  have wf : Wf settings c.state := ok.inv
  have settled : ∀ i result, c.At i (.done result) → Settled i c.state := by
    intro i result finished
    obtain ⟨s, rely, settled⟩ := ok.safe i _ finished
    exact Settled.rely settled rely
  have superseded : ∀ a ∈ c.state.adopted, ∀ g ∈ c.state.registrations, g.row.attempt ≠ some a := by
    intro a taken g member holds
    obtain ⟨a', holds', free, _⟩ := wf.registered g member
    obtain rfl := Option.some.inj (holds.symm.trans holds')
    exact free taken
  refine ⟨recorded, ?_, superseded, ?_, ?_, ?_, ?_⟩
  · intro g member
    obtain ⟨a, holds, _, _, faithful⟩ := wf.registered g member
    exact ⟨a, holds, faithful⟩
  · intro res taken
    have gone : ∀ row, Table.find c.state.catalog res.row = some row →
        row.attempt ≠ some res.attempt := by
      intro row found
      exact (wf.adopted _ taken).gone row (Table.find_mem found)
    cases found : Table.find c.state.catalog res.row with
    | none => simp [State.register, found]
    | some row =>
      have different := gone row found
      simp [State.register, found, Option.filter, PublishReservation.owns,
        PublishReservation.registers, different]
  · intro i res member issued taken result finished
    obtain ⟨g, registration, holds⟩ := (settled i result finished).registered res member issued
    exact superseded _ taken g registration holds
  · intro i refused
    constructor
    · intro result finished
      rw [(settled i result finished).unrefused] at refused
      cases refused
    · intro e raised
      obtain ⟨s, rely, explained⟩ := ok.safe i _ raised
      exact Explained.rely explained rely refused
  · intro i j res res' checked checked' same
    have held := wf.checked i res checked
    rw [same, wf.checked j res' checked'] at held
    exact (congrArg Hold.holder (Option.some.inj held)).symm

/-- In every interleaving of publications, uploads and repairs: what becomes registered describes the
object that the attempt on its row stored at its key; an attempt whose row was adopted never
registers, is told so at its next check and reports the conflict; and of one row at most one attempt
is between its check and its registration. -/
theorem publication_fenced (settings : Settings) (start : State) (begins : Start settings start)
    (events : List (Calls.Event Operation)) :
    FenceKept settings start (Trace.run (step settings) ⟨start, []⟩ events) := by
  have ok : Calls.Accounted (fenceDiscipline settings) (fun i _ s => Settled i s) Explained
      (Trace.run (step settings) ⟨start, []⟩ events) := by
    apply Calls.accounted_of_any_run
    · exact fun _ _ _ => trivial
    · exact fun operation i s _ fresh => wp_program operation i s fresh
    · exact begins.wf
    · exact fun i => ⟨begins.refused i, fun a known => by simp [begins.issued a] at known⟩
  refine fenceKept_of_accounted ?_ ok
  apply Calls.state_along
  · exact fun i s r a t served recorded => recorded_serve served recorded
  · exact fun _ _ _ recorded => recorded
  · exact fun row member _ => .inl member

def abcSha256 : Checksum :=
  [0xba, 0x78, 0x16, 0xbf, 0x8f, 0x01, 0xcf, 0xea, 0x41, 0x41, 0x40, 0xde, 0x5d, 0xae, 0x22, 0x23,
    0xb0, 0x03, 0x61, 0xa3, 0x96, 0x17, 0x7a, 0x9c, 0xb4, 0x10, 0xff, 0x61, 0xf2, 0x00, 0x15, 0xad]

def abcSettings : Settings where
  sha256 := fun content => if content = [97, 98, 99] then abcSha256 else []
  maxCount := 1
  maxBytes := 10
  lifetimeMax := 100
  conforms := fun _ _ => true

def emptyState : State where
  catalog := Table.empty
  store := Store.empty
  clock := 0
  publishLocks := fun _ => none
  projectLocks := fun _ => none
  rowLocks := fun _ => none
  nextId := 0
  issued := fun _ => none
  reservations := []
  adopted := []
  registrations := []
  stored := []
  checked := fun _ => none
  refused := fun _ => false
  readings := []

def abcRequest : PublishRequest where
  provider := "local"
  name := "base"
  arch := "x86_64"
  format := "qcow2"
  rootDevice := "/dev/vda"
  digest := "sha256:ba7816bf8f01cfea414140de5dae2223b00361a396177a9cb410ff61f20015ad".toList
  capabilities := []
  provenance := "test"
  visibility := .publicImage

def overtaken : List (Calls.Event Operation) :=
  [.start (.publish abcRequest [97, 98, 99] none), .start (.publish abcRequest [97, 98, 99] none)] ++
    List.replicate 5 (.call 0 .answered) ++ List.replicate 5 (.call 1 .answered) ++
    List.replicate 3 (.call 0 .answered) ++ List.replicate 6 (.call 1 .answered)

theorem overtaken_publication_fenced :
    let final := Trace.run (step abcSettings) ⟨emptyState, []⟩ overtaken
    final.state.adopted = [0] ∧ final.state.registrations.map (·.row.attempt) = [some 2] ∧
      final.state.refused 0 = true ∧ FenceKept abcSettings emptyState final := by
  refine ⟨by decide +kernel, by decide +kernel, by decide +kernel, ?_⟩
  apply publication_fenced
  constructor <;> simp [emptyState, Table.empty, Store.empty]

end Runs

end Kdive.Images
