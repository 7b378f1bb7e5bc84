import Kdive.Systems.Fleet
import Kdive.Jobs.Fencing

/-!
The stalled-state repairs over whole runs. What a pass keeps as a candidate had no active job when
the pass read it; what remains is that none appears. A forced crash has one row for good and a
checkpoint one job for good, so for them none can. A System can be restored again.
-/
namespace Kdive.Systems
open Table Jobs JsonText

attribute [local instance] UuidText.neZero

section Texts

theorem toNat_ofNat_ascii : ∀ c < 128, (Char.ofNat c).toNat = c := by
  decide +kernel

theorem encode_ascii : ∀ c < 128,
    ([Char.ofNat c].utf8Encode).data.toList = [UInt8.ofNat c] := by
  decide +kernel

theorem str_ofStr {text : Str} (ascii : ∀ c ∈ text, c < 128) : str (ofStr text) = text := by
  unfold str ofStr
  rw [String.toList_ofList, List.map_map]
  conv_rhs => rw [← List.map_id text]
  apply List.map_congr_left
  intro c inside
  exact toNat_ofNat_ascii c (ascii c inside)

theorem str_idText (u : Id) : str (idText u) = UuidText.text u :=
  str_ofStr (UuidText.small_text u)

theorem length_toList_idText (u : Id) : (idText u).toList.length = 36 := by
  simp [idText, ofStr, UuidText.text, UuidText.length_hexPad]

theorem idText_injective {u v : Id} (same : idText u = idText v) : u = v := by
  have texts : UuidText.text u = UuidText.text v := by rw [← str_idText, same, str_idText]
  have reads := UuidText.uuid_text ⟨fun _ => false, fun _ => none⟩ u
  rw [texts, UuidText.uuid_text] at reads
  exact (Option.some.inj reads).symm

theorem idText_append {u v : Id} {a b : String} (same : idText u ++ a = idText v ++ b) :
    u = v ∧ a = b := by
  have lists : (idText u).toList ++ a.toList = (idText v).toList ++ b.toList := by
    rw [← String.toList_append, same, String.toList_append]
  have widths : (idText u).toList.length = (idText v).toList.length := by
    rw [length_toList_idText, length_toList_idText]
  obtain ⟨ids, rests⟩ := List.append_inj lists widths
  exact ⟨idText_injective (String.toList_injective ids), String.toList_injective rests⟩

theorem mark_append {a b : String} {c : Char} (mark : a.toList[1]? = some c) :
    (a ++ b).toList[1]? = some c := by
  rw [String.toList_append]
  obtain ⟨inside, _⟩ := List.getElem?_eq_some_iff.mp mark
  rw [List.getElem?_append_left inside, mark]

theorem key_ne {u v : Id} {a b : String} {c d : Char} (differs : c ≠ d)
    (left : a.toList[1]? = some c) (right : b.toList[1]? = some d) :
    idText u ++ a ≠ idText v ++ b := by
  intro same
  rw [(idText_append same).2, right] at left
  exact differs (Option.some.inj left).symm

theorem restoreKey_eq (u : Id) (name : String) (startPaused : Bool) :
    restoreKey u name startPaused =
      idText u ++ (":restore:" ++ (name ++ (":" ++ if startPaused then "True" else "False"))) := by
  simp only [restoreKey, String.append_assoc]

theorem forceCrashKey_ne_snapshotKey {u v : Id} {name : String} :
    forceCrashKey u ≠ snapshotKey v name := by
  unfold forceCrashKey snapshotKey
  rw [String.append_assoc]
  exact key_ne (by decide : 'f' ≠ 's') rfl (mark_append rfl)

theorem forceCrashKey_ne_restoreKey {u v : Id} {name : String} {startPaused : Bool} :
    forceCrashKey u ≠ restoreKey v name startPaused := by
  rw [restoreKey_eq]
  exact key_ne (by decide : 'f' ≠ 'r') rfl (mark_append rfl)

theorem snapshotKey_ne_restoreKey {u v : Id} {name other : String} {startPaused : Bool} :
    snapshotKey u name ≠ restoreKey v other startPaused := by
  rw [restoreKey_eq]
  unfold snapshotKey
  rw [String.append_assoc]
  exact key_ne (by decide : 's' ≠ 'r') (mark_append rfl) (mark_append rfl)

end Texts

section Payloads

theorem separators : Separators (str ", ") (str ": ") :=
  ⟨⟨[32], rfl, by decide⟩, ⟨[32], rfl, by decide⟩⟩

theorem bytes_ofStr {text : Str} (ascii : ∀ c ∈ text, c < 128) :
    (ofStr text).toByteArray.data.toList = asciiBytes text := by
  induction text with
  | nil => rfl
  | cons c rest ih =>
    have head := encode_ascii c (ascii c List.mem_cons_self)
    have tail := ih (fun d inside => ascii d (List.mem_cons_of_mem c inside))
    unfold ofStr at tail ⊢
    rw [String.toByteArray_ofList] at tail ⊢
    rw [List.map_cons, List.utf8Encode_cons, ByteArray.data_append, Array.toList_append, tail, head]
    rfl

theorem member_dumpPayload {members : List (Str × Value)} (fits : Fits 1 (.object members))
    (name : String) : member (dumpPayload members) name = lookup members (str name) := by
  have plain := ascii_dumps separators fits
  unfold member dumpPayload
  simp only
  rw [bytes_ofStr (fun c inside => (plain c inside).2), loads_dumps separators fits]

theorem scalar_text (u : Id) : ∀ c ∈ UuidText.text u, Scalar c := by
  intro c inside
  have small := UuidText.small_text u c inside
  unfold Scalar
  omega

theorem memberText_forceCrash (systemId : String) :
    memberText (forceCrashPayload systemId) "system_id" = some (str systemId) := by
  unfold memberText forceCrashPayload
  rw [member_dumpPayload]
  · rfl
  · simp only [Fits, List.mem_singleton, forall_eq]
    exact ⟨scalar_str _, scalar_str _⟩

theorem fits_members {members : List (Str × Value)}
    (each : members.Forall (fun m => (∀ c ∈ m.1, Scalar c) ∧ Fits 0 m.2)) :
    Fits 1 (.object members) := List.forall_iff_forall_mem.mp each

theorem memberText_restore (systemId name : String) (startPaused : Bool) :
    memberText (restorePayload systemId name startPaused) "system_id" = some (str systemId) := by
  unfold memberText restorePayload
  rw [member_dumpPayload]
  · rfl
  · exact fits_members ⟨⟨scalar_str _, scalar_str _⟩, ⟨scalar_str _, scalar_str _⟩,
      ⟨scalar_str _, trivial⟩⟩

theorem memberText_snapshot (systemId : String) (sn : Id) (name : String) (includeMemory : Bool) :
    memberText (snapshotPayload systemId sn name includeMemory) "snapshot_id" =
      some (UuidText.text sn) := by
  unfold memberText snapshotPayload
  rw [member_dumpPayload]
  · rfl
  · exact fits_members ⟨⟨scalar_str _, scalar_str _⟩, ⟨scalar_str _, scalar_text _⟩,
      ⟨scalar_str _, scalar_str _⟩, ⟨scalar_str _, trivial⟩⟩

end Payloads

section Queue

variable {credential : String → List UInt8}

/-- A row that changed in nothing a repair asks about, and came to life no more than it was. -/
structure Descends (after before : Job) : Prop where
  kind : after.kind = before.kind
  payload : after.payload = before.payload
  dedupKey : after.dedupKey = before.dedupKey
  active : activeJob after = true → activeJob before = true

theorem Descends.refl (j : Job) : Descends j j := ⟨rfl, rfl, rfl, id⟩

theorem Descends.owns {unicode : UuidText.Unicode} {j j' : Job} {r : Repair} {u : Id}
    (descends : Descends j' j) (owner : owns unicode r u j') : owns unicode r u j := by
  cases r with
  | crashing =>
    exact ⟨descends.kind.symm.trans owner.1, by rw [← descends.payload]; exact owner.2⟩
  | restoring =>
    exact ⟨descends.kind.symm.trans owner.1, by rw [← descends.payload]; exact owner.2⟩
  | creating =>
    exact ⟨descends.kind.symm.trans owner.1, by rw [← descends.payload]; exact owner.2⟩

def AllDescend (after before : Keyed Job Uuid Job.id) : Prop :=
  ∀ j' ∈ after.rows, ∃ j ∈ before.rows, Descends j' j

theorem allDescend_refl (jobs : Keyed Job Uuid Job.id) : AllDescend jobs jobs :=
  fun j inside => ⟨j, inside, .refl j⟩

theorem allDescend_update {jobs : Keyed Job Uuid Job.id} {p : Job → Bool} {f : Job → Job}
    (keeps : ∀ j, (f j).id = j.id) (each : ∀ j ∈ jobs.rows, p j = true → Descends (f j) j) :
    AllDescend (Table.update jobs p f keeps) jobs := by
  intro j' inside
  obtain ⟨j, held, rfl⟩ := mem_update.mp inside
  refine ⟨j, held, ?_⟩
  split
  · rename_i hit
    exact each j held hit
  · exact .refl j

theorem descends_inactive {j j' : Job} (kind : j'.kind = j.kind) (payload : j'.payload = j.payload)
    (dedupKey : j'.dedupKey = j.dedupKey) (ended : activeJob j' = false) : Descends j' j :=
  ⟨kind, payload, dedupKey, by simp [ended]⟩

theorem active_of_fenced {jobId : Uuid} {worker : String} {attempt : Nat} {j : Job}
    (held : fenced jobId worker attempt j = true) : activeJob j = true := by
  simp only [fenced, Bool.and_eq_true, decide_eq_true_eq] at held
  simp [activeJob, held.2]

theorem descends_failedOrRequeued {category : ErrorCategory} {context : List (String × String)}
    {terminal : Bool} {j : Job} (active : activeJob j = true) :
    Descends (failedOrRequeued category context terminal j) j := by
  unfold failedOrRequeued
  split <;> exact ⟨rfl, rfl, rfl, fun _ => active⟩

theorem claim_active {db db' : QueueDb} {r : ClaimRequest} {facts : ClaimFacts}
    {pick : Option Uuid} {now : Instant} {j' : Job}
    (handed : claimWorkerJob db r facts pick now = .ok (db', some j')) :
    ∃ j, find db.jobs j.id = some j ∧ activeJob j = true ∧
      db' = db.updateJobs (fun k => k.id = j.id) (claimed r.workerId (now + r.lease) now)
        (claimed_id r.workerId (now + r.lease) now) := by
  unfold claimWorkerJob at handed
  split at handed
  · cases handed
  · split at handed
    · simp at handed
    · split at handed
      · cases handed
      · split at handed
        · simp at handed
        · rename_i j found
          split at handed
          · rename_i eligible
            simp only [Except.ok.injEq, Prod.mk.injEq, Option.some.injEq] at handed
            obtain ⟨row, _, here⟩ : ∃ i, pick = some i ∧ find db.jobs i = some j := by
              simpa [Option.bind_eq_some_iff] using found
            refine ⟨j, find_of_mem (find_mem here), ?_, handed.1.symm⟩
            simp only [oldestClaimable, claimable, Bool.and_eq_true, Bool.or_eq_true] at eligible
            unfold activeJob
            rw [Bool.or_eq_true]
            exact eligible.1.1.1.1.1.1.imp id (fun running => running.1)
          · simp at handed

theorem claim_descends {w : World} {loop : Loop} {lease : Duration} {facts : ClaimFacts}
    {pick : Option Uuid} {db : QueueDb} {c : Claim}
    (taken : takeClaim credential w loop lease facts pick = some (db, c)) :
    AllDescend db.jobs w.db.jobs := by
  unfold takeClaim at taken
  split at taken
  · cases taken
  · split at taken
    · rename_i db' j' handed
      simp only [Option.some.injEq, Prod.mk.injEq] at taken
      obtain ⟨j, found, active, effect⟩ := claim_active handed
      rw [← taken.1, effect]
      refine allDescend_update (claimed_id _ _ _) ?_
      intro k held same
      have row : k = j := row_unique held (find_mem found) (by simpa using same)
      exact ⟨rfl, rfl, rfl, fun _ => row ▸ active⟩
    · cases taken
    · cases taken

theorem commit_descends {w : World} {outcome : Except QueueError QueueDb}
    (each : ∀ db, outcome = .ok db → AllDescend db.jobs w.db.jobs) :
    AllDescend (w.commit outcome).db.jobs w.db.jobs := by
  cases outcome with
  | error _ => exact allDescend_refl _
  | ok db => exact each db rfl

theorem quiet_descends (w : World) (e : Event)
    (quiet : ∀ request newId, e ≠ .enqueue request newId) :
    AllDescend (Jobs.step credential w e).db.jobs w.db.jobs := by
  cases e with
  | tick elapsed => exact allDescend_refl _
  | register row =>
    simp only [Jobs.step, registerIncarnation]
    split <;> exact allDescend_refl _
  | terminate hash => exact allDescend_refl _
  | enqueue request newId => exact absurd rfl (quiet request newId)
  | claim loop lease facts pick =>
    simp only [Jobs.step]
    split
    · rename_i db c taken
      exact claim_descends taken
    · exact allDescend_refl _
  | heartbeat loop lease =>
    simp only [Jobs.step]
    split
    · refine commit_descends (fun db committed => ?_)
      rcases heartbeat_effect committed with rfl | ⟨worker, _, rfl⟩
      · exact allDescend_refl _
      · exact allDescend_update (renewed_id _ _)
          (fun j _ held => ⟨rfl, rfl, rfl, fun _ => active_of_fenced held⟩)
    · exact allDescend_refl _
  | complete loop resultRef captureClosed =>
    simp only [Jobs.step]
    split
    · refine commit_descends (fun db committed => ?_)
      rcases complete_effect committed with rfl | ⟨worker, _, rfl⟩
      · exact allDescend_refl _
      · exact allDescend_update (completed_id _) (fun j _ _ => descends_inactive rfl rfl rfl rfl)
    · exact allDescend_refl _
  | fail loop category context terminal captureClosed =>
    simp only [Jobs.step]
    split
    · refine commit_descends (fun db committed => ?_)
      rcases fail_effect committed with rfl | ⟨worker, _, rfl⟩
      · exact allDescend_refl _
      · refine allDescend_update (failedOrRequeued_id _ _ _) (fun j _ held => descends_failedOrRequeued ?_)
        exact active_of_fenced ((Bool.and_eq_true_iff.mp held).1)
    · exact allDescend_refl _
  | drop loop => exact allDescend_refl _
  | cancel jobId =>
    refine commit_descends (fun db committed => ?_)
    rw [cancel_effect committed]
    exact allDescend_update canceled_id (fun j _ _ => descends_inactive rfl rfl rfl rfl)
  | sweepRead sweep age => exact allDescend_refl _
  | sweepWrite sweep =>
    simp only [Jobs.step]
    split
    · simp only [deadLetterZombie]
      split
      · exact allDescend_refl _
      · split
        · exact allDescend_update deadLettered_id (fun j _ _ => descends_inactive rfl rfl rfl rfl)
        · exact allDescend_refl _
    · exact allDescend_refl _
  | sweepUnowned unowned =>
    exact allDescend_update deadLettered_id (fun j _ _ => descends_inactive rfl rfl rfl rfl)

/-- After an enqueue a row is as it was, or carries the payload and the key of the request. -/
theorem mem_enqueued {w : World} {request : EnqueueRequest} {newId : Uuid} {j' : Job}
    (inside : j' ∈ (Jobs.step credential w (.enqueue request newId)).db.jobs.rows) :
    j' ∈ w.db.jobs.rows ∨ (j'.payload = request.payload ∧ j'.dedupKey = request.dedupKey ∧
      (j'.kind = request.kind ∨
        ∃ j ∈ w.db.jobs.rows, j.dedupKey = request.dedupKey ∧ j'.kind = j.kind)) := by
  have inserted : ∀ j ∈ (insertJob w.db.jobs request newId w.clock).rows,
      j ∈ w.db.jobs.rows ∨ j = freshJob request newId w.clock := by
    intro j here
    unfold insertJob at here
    split at here
    · exact .inl here
    · exact (mem_insert here).imp id And.left
  simp only [Jobs.step, enqueueWithStatus] at inside
  split at inside
  · exact .inl inside
  · split at inside
    · exact .inl inside
    · simp only [World.commit, recycleJob] at inside
      split at inside
      · rcases inserted j' inside with old | rfl
        · exact .inl old
        · exact .inr ⟨rfl, rfl, .inl rfl⟩
      · obtain ⟨j, here, rfl⟩ := mem_update.mp inside
        rcases inserted j here with old | rfl
        · split
          · rename_i hit
            simp only [Bool.and_eq_true, decide_eq_true_eq] at hit
            exact .inr ⟨rfl, hit.1, .inr ⟨j, old, hit.1, rfl⟩⟩
          · exact .inl old
        · split <;> exact .inr ⟨rfl, rfl, .inl rfl⟩

end Queue

section Invariant

variable {credential : String → List UInt8} {unicode : UuidText.Unicode}

/-- A row is under the key of what it is for, and spells it as the database does. -/
inductive Filed (unicode : UuidText.Unicode) (j : Job) : Prop
  | crash (u : Id) : j.kind = .forceCrash → j.dedupKey = forceCrashKey u →
      subject unicode j.payload "system_id" = some u → Filed unicode j
  | revert (u v : Id) (name : String) (startPaused : Bool) : j.kind = .restore →
      j.dedupKey = restoreKey u name startPaused →
      memberText j.payload "system_id" = some (UuidText.text v) → Filed unicode j
  | capture (u sn : Id) (name : String) : j.kind = .snapshot → j.dedupKey = snapshotKey u name →
      memberText j.payload "snapshot_id" = some (UuidText.text sn) → Filed unicode j
  | other : j.kind ≠ .forceCrash ∧ j.kind ≠ .snapshot ∧ j.kind ≠ .restore →
      (∀ u, j.dedupKey ≠ forceCrashKey u) → (∀ u name, j.dedupKey ≠ snapshotKey u name) →
      (∀ u name startPaused, j.dedupKey ≠ restoreKey u name startPaused) → Filed unicode j

theorem Filed.of_descends {j j' : Job} (filed : Filed unicode j) (descends : Descends j' j) :
    Filed unicode j' := by
  obtain ⟨kind, payload, dedupKey, _⟩ := descends
  cases filed with
  | crash u ofKind key reads =>
    exact .crash u (kind.trans ofKind) (dedupKey.trans key) (payload ▸ reads)
  | revert u v name startPaused ofKind key reads =>
    exact .revert u v name startPaused (kind.trans ofKind) (dedupKey.trans key) (payload ▸ reads)
  | capture u sn name ofKind key reads =>
    exact .capture u sn name (kind.trans ofKind) (dedupKey.trans key) (payload ▸ reads)
  | other kinds crash capture revert =>
    refine .other (kind ▸ kinds) ?_ ?_ ?_ <;> rwa [dedupKey]

theorem Filed.kind_of_restoreKey {j : Job} {u : Id} {name : String} {startPaused : Bool}
    (filed : Filed unicode j) (key : j.dedupKey = restoreKey u name startPaused) :
    j.kind = .restore := by
  cases filed with
  | crash _ _ held => exact absurd (held.symm.trans key) forceCrashKey_ne_restoreKey
  | revert _ _ _ _ ofKind => exact ofKind
  | capture _ _ _ _ held => exact absurd (held.symm.trans key) snapshotKey_ne_restoreKey
  | other _ _ _ revert => exact absurd key (revert u name startPaused)

theorem Filed.kind_of_snapshotKey {j : Job} {u : Id} {name : String} (filed : Filed unicode j)
    (key : j.dedupKey = snapshotKey u name) : j.kind = .snapshot := by
  cases filed with
  | crash _ _ held => exact absurd (held.symm.trans key) forceCrashKey_ne_snapshotKey
  | revert _ _ _ _ _ held => exact absurd (key.symm.trans held) snapshotKey_ne_restoreKey
  | capture _ _ _ ofKind => exact ofKind
  | other _ _ capture => exact absurd key (capture u name)

theorem Filed.kind_of_foreign {j : Job} {request : EnqueueRequest} (filed : Filed unicode j)
    (foreign : Foreign request) (key : j.dedupKey = request.dedupKey) :
    j.kind ≠ .forceCrash ∧ j.kind ≠ .snapshot ∧ j.kind ≠ .restore := by
  cases filed with
  | crash u _ held => exact absurd (key.symm.trans held) (foreign.crash u)
  | revert u _ name startPaused _ held =>
    exact absurd (key.symm.trans held) (foreign.revert u name startPaused)
  | capture u _ name _ held => exact absurd (key.symm.trans held) (foreign.capture u name)
  | other kinds => exact kinds

/-- On filed rows the candidate queries find every job that owns what they ask about. -/
theorem Filed.blocks_of_owns {j : Job} {r : Repair} {u : Id} (filed : Filed unicode j)
    (owner : owns unicode r u j) : blocks r u j = true := by
  cases r with
  | crashing =>
    obtain ⟨kind, reads⟩ := owner
    cases filed with
    | crash v _ key known =>
      rw [reads] at known
      simp [blocks, key, Option.some.inj known]
    | revert _ _ _ _ ofKind => exact absurd (kind.symm.trans ofKind) (by decide)
    | capture _ _ _ ofKind => exact absurd (kind.symm.trans ofKind) (by decide)
    | other kinds => exact absurd kind kinds.1
  | restoring =>
    obtain ⟨kind, reads⟩ := owner
    cases filed with
    | crash _ ofKind => exact absurd (kind.symm.trans ofKind) (by decide)
    | revert _ v _ _ _ _ known =>
      have same : v = u := by simpa [subject, known, UuidText.uuid_text] using reads
      simp [blocks, kind, known, same]
    | capture _ _ _ ofKind => exact absurd (kind.symm.trans ofKind) (by decide)
    | other kinds => exact absurd kind kinds.2.2
  | creating =>
    obtain ⟨kind, reads⟩ := owner
    cases filed with
    | crash _ ofKind => exact absurd (kind.symm.trans ofKind) (by decide)
    | revert _ _ _ _ ofKind => exact absurd (kind.symm.trans ofKind) (by decide)
    | capture _ v _ _ _ known =>
      have same : v = u := by simpa [subject, known, UuidText.uuid_text] using reads
      simp [blocks, kind, known, same]
    | other kinds => exact absurd kind kinds.2.1

def HasCrashJob (w : Fleet) (u : Id) : Prop :=
  ∃ j ∈ w.queue.db.jobs.rows, j.dedupKey = forceCrashKey u

def Held (w : Fleet) (r : Repair) (u : Id) : Prop :=
  (∃ pass, u ∈ w.candidates r pass) ∨ (r = .creating ∧ ∃ pass, w.confirmed pass = some u)

structure Kept (unicode : UuidText.Unicode) (w : Fleet) (r : Repair) (u : Id) : Prop where
  idle : Idle unicode w r u
  crash : r = .crashing → HasCrashJob w u
  minted : r = .creating → u ∈ w.minted

structure Sound (unicode : UuidText.Unicode) (w : Fleet) : Prop where
  filed : ∀ j ∈ w.queue.db.jobs.rows, Filed unicode j
  started : ∀ j ∈ w.started, j.kind = .forceCrash → ∀ u,
    subject unicode j.payload "system_id" = some u → HasCrashJob w u
  crashing : ∀ row ∈ w.systems.rows, row.state = .crashing → HasCrashJob w row.id
  minted : ∀ row ∈ w.snapshots.rows, row.id ∈ w.minted
  kept : ∀ r u, Held w r u → Kept unicode w r u

theorem Initial.sound {w : Fleet} (initial : Initial w) : Sound unicode w where
  filed := by simp [initial.jobs]
  started := by simp [initial.started]
  crashing := by simp [initial.systems]
  minted := by simp [initial.snapshots]
  kept := by
    rintro r u (⟨pass, inside⟩ | ⟨_, pass, here⟩)
    · simp [initial.candidates] at inside
    · simp [initial.confirmed] at here

theorem held_of_settles {w : Fleet} {r : Repair} {pass : Nat} {u : Id}
    (found : settles w r pass = some u) : Held w r u := by
  cases r with
  | crashing => exact .inl ⟨pass, List.mem_of_head? (Option.filter_eq_some_iff.mp found).1⟩
  | restoring => exact .inl ⟨pass, List.mem_of_head? (Option.filter_eq_some_iff.mp found).1⟩
  | creating => exact .inr ⟨rfl, pass, (Option.filter_eq_some_iff.mp found).1⟩

theorem Sound.writesAlone {w : Fleet} (sound : Sound unicode w) (a : Act) :
    WritesAlone unicode w a := by
  intro r pass _ u found
  exact (sound.kept r u (held_of_settles found)).idle

section Tables

variable {w : Fleet}

theorem hasCrashJob_step {u : Id} (has : HasCrashJob w u) (e : Event) :
    ∃ j ∈ (Jobs.step credential w.queue e).db.jobs.rows, j.dedupKey = forceCrashKey u := by
  obtain ⟨j, inside, key⟩ := has
  obtain ⟨j', found, same⟩ := @row_persists credential w.queue e _ _ (find_of_mem inside)
  exact ⟨j', find_mem found, same.trans key⟩

theorem mem_setSystemState {u : Id} {state : SystemState} {row : SystemRow}
    (inside : row ∈ (setSystemState w u state).systems.rows) :
    ∃ old ∈ w.systems.rows, (if old.id = u then { old with state := state } else old) = row := by
  simpa [Systems.setSystemState, Table.update] using inside

theorem Sound.setSystemState (sound : Sound unicode w) {u : Id} {state : SystemState}
    (crash : state = .crashing → HasCrashJob w u) : Sound unicode (setSystemState w u state) where
  filed := sound.filed
  started := sound.started
  crashing := by
    intro row inside
    obtain ⟨old, held, rfl⟩ := mem_setSystemState inside
    split
    · rename_i same
      intro entered
      rw [same]
      exact crash entered
    · exact sound.crashing old held
  minted := sound.minted
  kept := by
    intro r v held
    obtain ⟨idle, crash, drawn⟩ := sound.kept r v held
    exact ⟨idle, crash, drawn⟩

theorem Sound.updateState (sound : Sound unicode w) {u : Id} {target : SystemState}
    (elsewhere : target ≠ .crashing) : Sound unicode (updateState w u target) := by
  unfold Systems.updateState
  split
  · split
    · exact sound.setSystemState (fun entered => absurd entered elsewhere)
    · exact sound
  · exact sound

theorem Sound.advance (sound : Sound unicode w) {u : Id} {source target : SystemState}
    (crash : target = .crashing → HasCrashJob w u) :
    Sound unicode (advance w u source target) := by
  unfold Systems.advance
  split
  · exact sound.setSystemState crash
  · exact sound

theorem Sound.withSnapshots (sound : Sound unicode w)
    {snapshots : Keyed SnapshotRow Id SnapshotRow.id} {minted : List Id}
    (ids : ∀ row ∈ snapshots.rows, row.id ∈ minted) (grows : ∀ u ∈ w.minted, u ∈ minted) :
    Sound unicode { w with snapshots := snapshots, minted := minted } where
  filed := sound.filed
  started := sound.started
  crashing := sound.crashing
  minted := ids
  kept := by
    intro r u held
    obtain ⟨idle, crash, drawn⟩ := sound.kept r u held
    exact ⟨idle, crash, fun creating => grows u (drawn creating)⟩

theorem Sound.setSnapshotState (sound : Sound unicode w) (sn : Id) (state : SnapshotState) :
    Sound unicode (setSnapshotState w sn state) := by
  refine @Sound.withSnapshots unicode w sound _ w.minted ?_ (fun u drawn => drawn)
  intro row inside
  obtain ⟨old, held, rfl⟩ := mem_update.mp inside
  split <;> exact sound.minted old held

theorem Sound.shrinks (sound : Sound unicode w) {candidates : Repair → Nat → List Id}
    {confirmed : Nat → Option Id}
    (fewer : ∀ r u, Held { w with candidates := candidates, confirmed := confirmed } r u →
      Held w r u) :
    Sound unicode { w with candidates := candidates, confirmed := confirmed } where
  filed := sound.filed
  started := sound.started
  crashing := sound.crashing
  minted := sound.minted
  kept := fun r u held => by
    obtain ⟨idle, crash, drawn⟩ := sound.kept r u (fewer r u held)
    exact ⟨idle, crash, drawn⟩

/-- An enqueue keeps the invariant if the row it leaves is filed and owns nothing a pass keeps. -/
theorem Sound.enqueue (sound : Sound unicode w) {request : EnqueueRequest} {newId : Uuid}
    (arrival : ∀ j : Job, j.payload = request.payload → j.dedupKey = request.dedupKey →
      (j.kind = request.kind ∨
        ∃ old ∈ w.queue.db.jobs.rows, old.dedupKey = request.dedupKey ∧ j.kind = old.kind) →
      Filed unicode j ∧ ∀ r u, Held w r u → ¬ owns unicode r u j) :
    Sound unicode (enqueue credential w request newId) where
  filed := by
    intro j inside
    rcases @mem_enqueued credential _ _ _ _ inside with old | ⟨payload, key, kind⟩
    · exact sound.filed j old
    · exact (arrival j payload key kind).1
  started := fun j inside crash u reads => hasCrashJob_step (sound.started j inside crash u reads) _
  crashing := fun row inside entered => hasCrashJob_step (sound.crashing row inside entered) _
  minted := sound.minted
  kept := by
    intro r u held
    obtain ⟨idle, crash, drawn⟩ := sound.kept r u held
    refine ⟨?_, fun crashing => hasCrashJob_step (crash crashing) _, drawn⟩
    intro j inside active
    rcases @mem_enqueued credential _ _ _ _ inside with old | ⟨payload, key, kind⟩
    · exact idle j old active
    · exact (arrival j payload key kind).2 r u held

end Tables

section Acts

variable {w : Fleet}

theorem Sound.queue (sound : Sound unicode w) {e : Event}
    (quiet : ∀ request newId, e ≠ .enqueue request newId) :
    Sound unicode (step credential unicode w (.queue e quiet)) := by
  have descend := @quiet_descends credential w.queue e quiet
  have filed : ∀ j ∈ (Jobs.step credential w.queue e).db.jobs.rows, Filed unicode j := by
    intro j inside
    obtain ⟨old, held, descends⟩ := descend j inside
    exact (sound.filed old held).of_descends descends
  refine ⟨filed, ?_, ?_, sound.minted, ?_⟩
  · intro j inside crash u reads
    rcases List.mem_append.mp inside with old | new
    · exact hasCrashJob_step (sound.started j old crash u reads) e
    · obtain ⟨c, _, found⟩ := Option.bind_eq_some_iff.mp (Option.mem_toList.mp new)
      have row := find_mem found
      have key := (filed j row).blocks_of_owns (r := .crashing) ⟨crash, reads⟩
      exact ⟨j, row, by simpa [blocks] using key⟩
  · exact fun row inside entered => hasCrashJob_step (sound.crashing row inside entered) e
  · intro r u held
    obtain ⟨idle, crash, drawn⟩ := sound.kept r u held
    refine ⟨?_, fun crashing => hasCrashJob_step (crash crashing) e, drawn⟩
    intro j inside active owner
    obtain ⟨old, here, descends⟩ := descend j inside
    refine idle old here (descends.active active) ?_
    exact descends.owns owner

theorem Sound.enqueueOther (sound : Sound unicode w) {request : EnqueueRequest}
    (foreign : Foreign request) (newId : Uuid) :
    Sound unicode (Systems.enqueue credential w request newId) := by
  apply sound.enqueue
  intro j _ key kind
  have kinds : j.kind ≠ .forceCrash ∧ j.kind ≠ .snapshot ∧ j.kind ≠ .restore := by
    rcases kind with same | ⟨old, held, same, kind⟩
    · rw [same]
      exact foreign.kind
    · rw [kind]
      exact (sound.filed old held).kind_of_foreign foreign same
  constructor
  · exact .other kinds (key ▸ foreign.crash) (key ▸ foreign.capture) (key ▸ foreign.revert)
  · intro r u _ owner
    cases r with
    | crashing => exact kinds.1 owner.1
    | restoring => exact kinds.2.2 owner.1
    | creating => exact kinds.2.1 owner.1

theorem Sound.forceCrashSystem (sound : Sound unicode w) (systemId authorizing : String)
    (s : Surroundings) (newId : Uuid) :
    Sound unicode (forceCrashSystem credential unicode w systemId authorizing s newId) := by
  unfold Systems.forceCrashSystem
  split
  · split
    · rename_i u named
      have erased : Sound unicode { w with checked := w.checked.erase systemId } :=
        ⟨sound.filed, sound.started, sound.crashing, sound.minted,
          fun r u held => ⟨(sound.kept r u held).idle, (sound.kept r u held).crash,
            (sound.kept r u held).minted⟩⟩
      simp only
      split
      · exact erased
      · rename_i open_key
        simp only [List.any_eq_true, decide_eq_true_eq, not_or, not_exists, not_and] at open_key
        apply erased.enqueue
        intro j payload key kind
        have crash : j.kind = .forceCrash := by
          rcases kind with same | ⟨old, held, same, _⟩
          · exact same
          · exact absurd same (open_key.1 old held)
        have reads : subject unicode j.payload "system_id" = some u := by
          rw [payload]
          simp only [subject, forceCrashRequest, memberText_forceCrash, Option.bind_some]
          exact named
        refine ⟨.crash u crash key reads, ?_⟩
        intro r v held owner
        cases r with
        | crashing =>
          -- a kept System has its row, and this one has none
          have same : v = u := Option.some.inj (owner.2.symm.trans reads)
          obtain ⟨old, inside, taken⟩ := (sound.kept .crashing v held).crash rfl
          exact open_key.1 old inside (taken.trans (by rw [same]))
        | restoring => exact absurd (crash.symm.trans owner.1) (by decide)
        | creating => exact absurd (crash.symm.trans owner.1) (by decide)
    · exact sound
  · exact sound

/-- The row and its id are drawn in the transaction of the enqueue, so no pass knows them. -/
theorem Sound.snapshotSystem (sound : Sound unicode w) (call : SnapshotCall) (s : Surroundings)
    (newId : Uuid) (sn : Id) :
    Sound unicode (snapshotSystem credential unicode w call s newId sn) := by
  unfold Systems.snapshotSystem
  split
  · rename_i u _
    split
    · rename_i admitted
      have fresh := admitted.2.2.2.2.2.2
      unfold createSnapshot
      refine Sound.enqueue (sound.withSnapshots ?_ (fun u drawn => List.mem_cons_of_mem _ drawn)) ?_
      · intro row inside
        rcases mem_insert inside with kept | ⟨rfl, _⟩
        · exact List.mem_cons_of_mem _ (sound.minted row (mem_delete.mp kept).1)
        · exact List.mem_cons_self
      · intro j payload key kind
        have capture : j.kind = .snapshot := by
          rcases kind with same | ⟨old, held, same, kind⟩
          · exact same
          · exact kind.trans ((sound.filed old held).kind_of_snapshotKey same)
        have reads : memberText j.payload "snapshot_id" = some (UuidText.text sn) := by
          rw [payload, snapshotRequest]
          exact memberText_snapshot call.systemId sn call.name call.includeMemory
        refine ⟨.capture u sn call.name capture key reads, ?_⟩
        intro r v held owner
        cases r with
        | crashing => exact absurd (capture.symm.trans owner.1) (by decide)
        | restoring => exact absurd (capture.symm.trans owner.1) (by decide)
        | creating =>
          have same : sn = v := by simpa [subject, reads, UuidText.uuid_text] using owner.2
          exact fresh (same ▸ (sound.kept .creating v held).minted rfl)
    · exact sound
  · exact sound

theorem Sound.restoreSystem (sound : Sound unicode w) {call : RestoreCall} {s : Surroundings}
    {newId : Uuid} (unforeseen : Unforeseen unicode w (.restore call s newId)) :
    Sound unicode (restoreSystem credential unicode w call s newId) := by
  unfold Systems.restoreSystem
  split
  · rename_i u target
    obtain ⟨spelled, unkept⟩ := unforeseen call s newId rfl u target
    refine Sound.enqueue (sound.setSystemState (fun entered => by cases entered)) ?_
    intro j payload key kind
    have revert : j.kind = .restore := by
      rcases kind with same | ⟨old, held, same, kind⟩
      · exact same
      · exact kind.trans ((sound.filed old held).kind_of_restoreKey same)
    have reads : memberText j.payload "system_id" = some (UuidText.text u) := by
      rw [payload, ← spelled, restoreRequest]
      exact memberText_restore call.systemId call.name call.startPaused
    refine ⟨.revert u u call.name call.startPaused revert key reads, ?_⟩
    intro r v held owner
    cases r with
    | crashing => exact absurd (revert.symm.trans owner.1) (by decide)
    | restoring =>
      have same : u = v := by simpa [subject, reads, UuidText.uuid_text] using owner.2
      rcases held with ⟨pass, inside⟩ | ⟨other, _⟩
      · exact unkept pass (same ▸ inside)
      · cases other
    | creating => exact absurd (revert.symm.trans owner.1) (by decide)
  · exact sound

theorem Sound.commit (sound : Sound unicode w) (n : Nat) (c : Commit) :
    Sound unicode (commit unicode w n c) := by
  unfold Systems.commit
  split
  · rename_i j started
    split
    · exact sound
    rename_i ofKind
    have running := List.mem_of_getElem? started
    have kind : j.kind = c.kind := Decidable.of_not_not ofKind
    split
    · split
      · rename_i sn _
        cases c with
        | captureLanded =>
          simp only [commitSnapshot]
          split
          · exact sound.setSnapshotState sn _
          · exact sound
        | captureFailed =>
          simp only [commitSnapshot, updateSnapshot]
          split
          · split
            · exact sound.setSnapshotState sn _
            · exact sound
          · exact sound
        | _ => exact sound
      · exact sound
    · split
      · rename_i u reads
        cases c with
        | enterCrashing =>
          exact sound.advance (fun _ => sound.started j running kind u reads)
        | finalizeForceCrash => exact sound.advance (fun entered => by cases entered)
        | restoreResult =>
          refine sound.advance (fun entered => ?_)
          unfold restoreOutcome at entered
          split at entered <;> cases entered
        | restoreFailure => exact sound.updateState (by decide)
        | captureLanded => exact sound
        | captureFailed => exact sound
      · exact sound
  · exact sound

theorem Sound.kept_candidate (sound : Sound unicode w) {r : Repair} {u : Id}
    (chosen : u ∈ candidatesOf w r) : Kept unicode w r u := by
  obtain ⟨stuck, free⟩ := List.mem_filter.mp chosen
  refine ⟨?_, ?_, ?_⟩
  · intro j inside active owner
    have found := (sound.filed j inside).blocks_of_owns owner
    simp only [Bool.not_eq_true', List.any_eq_false, Bool.and_eq_true, not_and] at free
    exact free j inside active found
  · rintro rfl
    obtain ⟨row, inside, rfl⟩ := List.mem_map.mp stuck
    obtain ⟨here, state⟩ := List.mem_filter.mp inside
    exact sound.crashing row here (by simpa using state)
  · rintro rfl
    obtain ⟨row, inside, rfl⟩ := List.mem_map.mp stuck
    exact sound.minted row (List.mem_filter.mp inside).1

theorem Sound.repairRead (sound : Sound unicode w) (r : Repair) (pass : Nat) :
    Sound unicode (step credential unicode w (.repairRead r pass)) := by
  refine ⟨sound.filed, sound.started, sound.crashing, sound.minted, ?_⟩
  intro q u held
  have kept : Kept unicode w q u := by
    rcases held with ⟨other, inside⟩ | confirmed
    · simp only [step] at inside
      by_cases same : q = r
      · subst same
        rw [Function.update_self] at inside
        by_cases here : other = pass
        · subst here
          rw [Function.update_self] at inside
          exact sound.kept_candidate inside
        · rw [Function.update_of_ne here] at inside
          exact sound.kept q u (.inl ⟨other, inside⟩)
      · rw [Function.update_of_ne same] at inside
        exact sound.kept q u (.inl ⟨other, inside⟩)
    · exact sound.kept q u (.inr confirmed)
  exact ⟨kept.idle, kept.crash, kept.minted⟩

theorem mem_of_mem_update {r q : Repair} {pass other : Nat} {fewer : List Id} {u : Id}
    (sub : ∀ v ∈ fewer, v ∈ w.candidates r pass)
    (inside : u ∈ Function.update w.candidates r
      (Function.update (w.candidates r) pass fewer) q other) : u ∈ w.candidates q other := by
  by_cases same : q = r
  · subst same
    rw [Function.update_self] at inside
    by_cases here : other = pass
    · subst here
      rw [Function.update_self] at inside
      exact sub u inside
    · rwa [Function.update_of_ne here] at inside
  · rwa [Function.update_of_ne same] at inside

theorem Sound.consume (sound : Sound unicode w) (r : Repair) (pass : Nat) :
    Sound unicode (consume w r pass) := by
  unfold Systems.consume
  split
  · refine sound.shrinks ?_
    rintro q u (here | ⟨creating, other, found⟩)
    · exact .inl here
    · refine .inr ⟨creating, other, ?_⟩
      simp only at found
      by_cases same : other = pass
      · rw [same, Function.update_self] at found
        cases found
      · rwa [Function.update_of_ne same] at found
  · refine sound.shrinks ?_
    rintro q u (⟨other, inside⟩ | confirmed)
    · exact .inl ⟨other, mem_of_mem_update (fun v => List.mem_of_mem_tail) inside⟩
    · exact .inr confirmed

theorem Sound.recheckSnapshot (sound : Sound unicode w) (pass : Nat) :
    Sound unicode (recheckSnapshot w pass) := by
  unfold Systems.recheckSnapshot
  split
  · rename_i sn rest listed
    refine sound.shrinks ?_
    rintro q u (⟨other, inside⟩ | ⟨creating, other, found⟩)
    · refine .inl ⟨other, mem_of_mem_update (fun v member => ?_) inside⟩
      rw [listed]
      exact List.mem_cons_of_mem sn member
    · simp only at found
      by_cases same : other = pass
      · rw [same, Function.update_self] at found
        split at found
        · cases found
          exact .inl ⟨pass, by rw [creating, listed]; exact List.mem_cons_self⟩
        · cases found
      · rw [Function.update_of_ne same] at found
        exact .inr ⟨creating, other, found⟩
  · exact sound

theorem Sound.repairWrite (sound : Sound unicode w) (r : Repair) (pass : Nat) :
    Sound unicode (repairWrite w r pass) := by
  unfold Systems.repairWrite
  split
  · cases r with
    | crashing => exact (sound.consume _ _).setSystemState (fun entered => by cases entered)
    | restoring => exact (sound.consume _ _).setSystemState (fun entered => by cases entered)
    | creating => exact (sound.consume _ _).setSnapshotState _ _
  · exact sound.consume _ _

theorem sound_step (a : Act) (sound : Sound unicode w) (unforeseen : Unforeseen unicode w a) :
    Sound unicode (step credential unicode w a) := by
  cases a with
  | queue e quiet => exact sound.queue quiet
  | enqueueOther request newId foreign =>
    simp only [step]
    exact sound.enqueueOther foreign newId
  | forceCrashCheck systemId s =>
    simp only [step, forceCrashCheck]
    split
    · split
      · refine ⟨sound.filed, sound.started, sound.crashing, sound.minted, fun r u held => ?_⟩
        obtain ⟨idle, crash, drawn⟩ := sound.kept r u held
        exact ⟨idle, crash, drawn⟩
      · exact sound
    · exact sound
  | forceCrash systemId authorizing s newId =>
    simp only [step]
    exact sound.forceCrashSystem systemId authorizing s newId
  | snapshot call s newId snapshotId =>
    simp only [step]
    exact sound.snapshotSystem call s newId snapshotId
  | restore call s newId =>
    simp only [step]
    exact sound.restoreSystem unforeseen
  | commit n c => exact sound.commit n c
  | addSystem u =>
    refine ⟨sound.filed, sound.started, ?_, sound.minted, fun r u held => ?_⟩
    · intro row inside entered
      rcases mem_insert inside with old | ⟨rfl, _⟩
      · exact sound.crashing row old entered
      · cases entered
    · obtain ⟨idle, crash, drawn⟩ := sound.kept r u held
      exact ⟨idle, crash, drawn⟩
  | moveSystem u target elsewhere => exact sound.updateState elsewhere.1
  | dropSnapshots ids =>
    exact @Sound.withSnapshots unicode w sound _ w.minted
      (fun row inside => sound.minted row (mem_delete.mp inside).1) (fun u drawn => drawn)
  | repairRead r pass => exact sound.repairRead r pass
  | recheckSnapshot pass => exact sound.recheckSnapshot pass
  | repairWrite r pass => exact sound.repairWrite r pass

end Acts

/-- Where every admitted restore spells its System as the database does and meets no pass that
keeps it as a candidate, no repair ever settles what a queued or running job owns. -/
theorem repairs_write_alone {start : Fleet} (initial : Initial start) (history : List Act)
    (unforeseen : Trace.Along (step credential unicode) (Unforeseen unicode) start history) :
    Trace.Along (step credential unicode) (WritesAlone unicode) start history :=
  Trace.along_of_invariant (fun _ a sound meets => sound_step a sound meets)
    (fun _ a sound _ => sound.writesAlone a) initial.sound unforeseen

end Invariant

section Sample

def emptyFleet : Fleet :=
  { queue := sampleWorld, systems := empty, snapshots := empty, minted := [], checked := []
    started := [], candidates := fun _ _ => [], confirmed := fun _ => none }

theorem initial_emptyFleet : Initial emptyFleet :=
  ⟨rfl, rfl, rfl, rfl, fun _ _ => rfl, fun _ => rfl⟩

def plainUnicode : UuidText.Unicode := ⟨fun _ => false, fun _ => none⟩

abbrev sampleStep : Fleet → Act → Fleet := step sampleCredential plainUnicode

def fencedLoop : Loop := ⟨"local:worker", .stateFenced⟩

def granted : Surroundings := ⟨true, false, false, false⟩

def sampleSystem : Id := 10

def lowerCase : String := "00000000-0000-0000-0000-00000000000a"

def upperCase : String := "00000000-0000-0000-0000-00000000000A"

def checkpointed : List Act :=
  [.addSystem sampleSystem, .moveSystem sampleSystem .ready (by decide),
    .queue (.register ⟨"local:worker", List.replicate 32 7, 4, true⟩) (by rintro _ _ ⟨⟩),
    .snapshot ⟨lowerCase, "base", true, "agent"⟩ granted 7 5,
    .queue (.claim fencedLoop 60000000 sampleFacts (some 7)) (by rintro _ _ ⟨⟩),
    .commit 0 .captureLanded,
    .queue (.complete fencedLoop none (fun _ => true)) (by rintro _ _ ⟨⟩),
    .queue (.drop fencedLoop) (by rintro _ _ ⟨⟩)]

def restoring (systemId : String) (startPaused : Bool) (newId : Uuid) : Act :=
  .restore ⟨systemId, "base", startPaused, "agent"⟩ granted newId

def spelledOtherwise : List Act :=
  checkpointed ++ [restoring upperCase false 8, .repairRead .restoring 0]

def overtaken (history : List Act) : Bool :=
  let w := Trace.run sampleStep emptyFleet history
  match settles w .restoring 0 with
  | some u => w.queue.db.jobs.rows.any
      (fun j => activeJob j && decide (owns plainUnicode .restoring u j))
  | none => false

theorem not_alone {history : List Act} (found : overtaken history = true) :
    ¬ Trace.Along sampleStep (WritesAlone plainUnicode) emptyFleet
      (history ++ [.repairWrite .restoring 0]) := by
  intro along
  have alone := (Trace.along_append.mp along).2.1
  unfold overtaken at found
  simp only at found
  split at found
  · rename_i u settled
    obtain ⟨j, inside, owner⟩ := List.any_eq_true.mp found
    rw [Bool.and_eq_true, decide_eq_true_eq] at owner
    exact alone .restoring 0 rfl u settled j inside owner.1 owner.2
  · cases found

def isRestore : Act → Bool
  | .restore _ _ _ => true
  | _ => false

theorem unforeseen_of_other {unicode : UuidText.Unicode} {w : Fleet} {a : Act}
    (other : isRestore a = false) : Unforeseen unicode w a := by
  rintro call s newId rfl
  cases other

theorem unforeseen_along {start : Fleet} {history : List Act}
    (other : history.all (fun a => !isRestore a) = true) :
    Trace.Along sampleStep (Unforeseen plainUnicode) start history := by
  apply Trace.along_of_forall_mem
  intro a inside w
  apply unforeseen_of_other
  simpa using List.all_eq_true.mp other a inside

def isRepair : Act → Bool
  | .repairRead _ _ | .recheckSnapshot _ | .repairWrite _ _ => true
  | _ => false

theorem advance_candidates (w : Fleet) (u : Id) (source target : SystemState) :
    (advance w u source target).candidates = w.candidates := by
  unfold advance
  split <;> rfl

theorem updateState_candidates (w : Fleet) (u : Id) (target : SystemState) :
    (updateState w u target).candidates = w.candidates := by
  unfold updateState
  split
  · split <;> rfl
  · rfl

theorem commitSystem_candidates (w : Fleet) (j : Job) (u : Id) (c : Commit) :
    (commitSystem w j u c).candidates = w.candidates := by
  cases c with
  | enterCrashing | finalizeForceCrash | restoreResult => exact advance_candidates w u _ _
  | restoreFailure => exact updateState_candidates w u _
  | captureLanded | captureFailed => rfl

theorem commitSnapshot_candidates (w : Fleet) (sn : Id) (c : Commit) :
    (commitSnapshot w sn c).candidates = w.candidates := by
  cases c with
  | captureLanded =>
    simp only [commitSnapshot]
    split <;> rfl
  | captureFailed =>
    simp only [commitSnapshot, updateSnapshot]
    split
    · split <;> rfl
    · rfl
  | _ => rfl

theorem step_candidates {w : Fleet} {a : Act} (other : isRepair a = false) :
    (sampleStep w a).candidates = w.candidates := by
  cases a with
  | repairRead | recheckSnapshot | repairWrite => cases other
  | queue | enqueueOther | addSystem | dropSnapshots => rfl
  | forceCrashCheck systemId s =>
    simp only [sampleStep, step, forceCrashCheck]
    split
    · split <;> rfl
    · rfl
  | forceCrash systemId authorizing s newId =>
    simp only [sampleStep, step, forceCrashSystem]
    split
    · split
      · split <;> rfl
      · rfl
    · rfl
  | snapshot call s newId snapshotId =>
    simp only [sampleStep, step, snapshotSystem]
    split
    · split <;> rfl
    · rfl
  | restore call s newId =>
    simp only [sampleStep, step, restoreSystem]
    split <;> rfl
  | commit n c =>
    simp only [sampleStep, step, commit]
    split
    · split
      · rfl
      · split
        · split
          · exact commitSnapshot_candidates w _ c
          · rfl
        · split
          · exact commitSystem_candidates w _ _ c
          · rfl
    · rfl
  | moveSystem u target elsewhere => exact updateState_candidates w u target

theorem run_candidates {start : Fleet} {history : List Act}
    (other : history.all (fun a => !isRepair a) = true) :
    (Trace.run sampleStep start history).candidates = start.candidates := by
  induction history generalizing start with
  | nil => rfl
  | cons a rest ih =>
    simp only [List.all_cons, Bool.and_eq_true, Bool.not_eq_true'] at other
    rw [Trace.run_cons, ih (by simpa using other.2), step_candidates other.1]

def stranded : List Act :=
  [.queue (.cancel 8) (by rintro _ _ ⟨⟩), .repairRead .restoring 0, .repairWrite .restoring 0]

theorem stranded_alone :
    settles (Trace.run sampleStep emptyFleet
        (checkpointed ++ restoring lowerCase false 8 :: stranded.take 2)) .restoring 0 =
      some sampleSystem ∧
    Trace.Along sampleStep (WritesAlone plainUnicode) emptyFleet
      (checkpointed ++ restoring lowerCase false 8 :: stranded) := by
  refine ⟨by decide +kernel, repairs_write_alone initial_emptyFleet _ ?_⟩
  refine Trace.along_append.mpr ⟨unforeseen_along (by decide), ?_, unforeseen_along (by decide)⟩
  rintro call s newId ⟨⟩ u target
  have named : u = sampleSystem := by
    have found : restoreTarget plainUnicode (Trace.run sampleStep emptyFleet checkpointed)
        ⟨lowerCase, "base", false, "agent"⟩ granted = some sampleSystem := by decide +kernel
    exact Option.some.inj (target.symm.trans found)
  rw [named]
  refine ⟨by decide +kernel, ?_⟩
  intro pass
  have unread := @run_candidates emptyFleet checkpointed (by decide)
  rw [show (Trace.run (step sampleCredential plainUnicode) emptyFleet checkpointed).candidates =
    emptyFleet.candidates from unread]
  exact List.not_mem_nil

theorem queued_restore_overtaken :
    ¬ ∀ start : Fleet, Initial start → ∀ history : List Act,
      Trace.Along (step sampleCredential plainUnicode) (WritesAlone plainUnicode) start history := by
  intro always
  have found : overtaken spelledOtherwise = true := by decide +kernel
  exact not_alone found (always emptyFleet initial_emptyFleet _)

end Sample

end Kdive.Systems
