import Kdive.Domain
import Kdive.ExternalBoot.Evidence
import Mathlib.Data.List.DropRight

/-!
The settlement of an activation that is stranded while it prepares. The database writes the
evidence that Python reads back. Every text of it was checked on its way in, except the identity of
the store: the inventory takes any text that is not blank.
-/
namespace Kdive.ExternalBoot
open JsonText CanonicalJson

attribute [local instance] JsonText.lawful

section Program

variable {Time : Type}

def escapeSql (c : Nat) : Str :=
  if c = 8 then [92, 98]
  else if c = 12 then [92, 102]
  else if c = 10 then [92, 110]
  else if c = 13 then [92, 114]
  else if c = 9 then [92, 116]
  else if c = 34 then [92, 34]
  else if c = 92 then [92, 92]
  else if c < 32 then [92, 117] ++ hex4 c
  else [c]

def quotedSql (s : Str) : Str := [34] ++ s.flatMap escapeSql ++ [34]

/-- `canonical_external_boot_authority_json`; the names here sort alike in every collation. -/
def canonicalAuthorityJson (v : Value) : Str := canonical quotedSql v

def follow : List String → Value → Option Value
  | [], v => some v
  | name :: rest, .object members => (lookup members (str name)).bind (follow rest)
  | _ :: _, _ => none

def pathText (p : Platform Time) (path : List String) (v : Value) : Option Str :=
  match follow path v with
  | none | some .null => none
  | some (.text s) => some s
  | some other => some (p.jsonbText other)

def absentRef (ref : Str) : Bool :=
  decide (1 ≤ (utf8 ref).length) && decide ((utf8 ref).length ≤ 1024) &&
    ref.all (fun c => decide (32 ≤ c) && decide (c ≤ 126)) &&
    !ref.any (fun c => decide (c ∈ [34, 92, 58, 64])) && !(ref.splitOn 47).any dotSegment

/-- The authority's columns of a settlement: nothing else than what was checked is written there. -/
structure AuthorityAbsence where
  authorityInstance : Str
  domainName : Str
  journal : Option (Int × Str)
  compositeState : Str
  absentObjects : List Str
  recordedAt : Instant
  digest : isDigest compositeState = true
  bounded : absentObjects.length ≤ 32
  admissible : ∀ ref ∈ absentObjects, absentRef ref = true
  distinct : absentObjects.Nodup

structure WorkerOwnership where
  domainName : Str
  recordedAt : Instant

structure SettlementRow where
  authority : Option AuthorityAbsence
  worker : Option WorkerOwnership
  principal : Option Str
  reason : Option Str
  settledAt : Option Instant

structure SystemRow where
  state : SystemState
  domainName : Option Str

structure ReservationRow where
  storeIdentity : Str
  ownerKey : Str
  reservedBytes : Int

inductive AuthorityState
  | allocating | current | superseded | retired
  deriving DecidableEq

structure AuthorityRow where
  activationId : Uuid
  authorityInstance : Str
  state : AuthorityState
  supersededAt : Option Instant

structure JobRow where
  boot : Bool
  live : Bool
  systemId : Option Str
  activationId : Option Str
  authorityInstance : Option Str

structure ObligationRow where
  systemId : Uuid
  mutationDischargedAt : Option Instant
  mutationDischargeReason : Option Str

structure AuditRow where
  principal : Str
  agentSession : Option Str
  scope : Str
  argsDigest : Str
  actor : Str

structure Database where
  activations : Uuid → Option ActivationRow
  systems : Uuid → SystemRow
  settlements : Uuid → Option SettlementRow
  reservations : Uuid → Option ReservationRow
  releases : Uuid → Option ReleaseRow
  journalHeads : Str → Uuid → Option (Int × Str)
  ownership : Uuid → Bool
  authorities : List AuthorityRow
  jobs : List JobRow
  obligations : List ObligationRow
  audit : List AuditRow

inductive SqlFault
  | invalidParameter | uniqueViolation | checkViolation
  deriving DecidableEq

inductive RecordResult
  | notFound | superseded | applied
  deriving DecidableEq

structure AbsenceReport where
  activationId : Uuid
  authorityInstance : Str
  domainName : Str
  journal : Option (Int × Str)
  compositeState : Str
  absentObjects : List Str

/-- The authority is one of the activation's own. -/
def authorityNamed (db : Database) (r : AbsenceReport) : Bool :=
  db.authorities.any (fun a => decide (a.activationId = r.activationId) &&
      decide (a.authorityInstance = r.authorityInstance)) ||
    db.jobs.any (fun j => j.boot && decide (j.activationId = some (UuidText.text r.activationId)) &&
      decide (j.authorityInstance = some r.authorityInstance))

/-- The row that is inserted, or updated unless it is settled. -/
def recordedRow (absence : AuthorityAbsence) : Option SettlementRow → SettlementRow
  | none => ⟨some absence, none, none, none, none⟩
  | some row => if row.settledAt = none then { row with authority := some absence } else row

def recordStrandedActivationAuthorityAbsence (db : Database) (now : Instant) (r : AbsenceReport) :
    Except SqlFault (RecordResult × Database) :=
  if valid : isDigest r.compositeState = true ∧ r.absentObjects.length ≤ 32 ∧
      ∀ ref ∈ r.absentObjects, absentRef ref = true then
    match db.activations r.activationId with
    | none => .ok (.notFound, db)
    | some activation =>
      if activation.state ≠ .preparing ∨ authorityNamed db r = false then .ok (.superseded, db)
      else if (db.systems activation.systemId).domainName ≠ some r.domainName then
        .ok (.superseded, db)
      else if db.journalHeads r.authorityInstance activation.systemId ≠ r.journal then
        .ok (.superseded, db)
      else
        let absence : AuthorityAbsence :=
          ⟨r.authorityInstance, r.domainName, r.journal, r.compositeState, r.absentObjects.dedup, now,
            valid.1, (List.dedup_sublist _).length_le.trans valid.2.1,
            fun ref mem => valid.2.2 ref (List.mem_dedup.mp mem), List.nodup_dedup _⟩
        let row := recordedRow absence (db.settlements r.activationId)
        .ok (.applied,
          { db with settlements := Function.update db.settlements r.activationId (some row) })
  else .error .invalidParameter

/-- A report that is not applied changes nothing; one that is changes the activation's settlement, and
not a settlement that is closed. -/
theorem recorded_frame {db after : Database} {now : Instant} {r : AbsenceReport} {result : RecordResult}
    (recorded : recordStrandedActivationAuthorityAbsence db now r = .ok (result, after)) :
    (result ≠ .applied → after = db) ∧
      ∃ settlements, after = { db with settlements := settlements } ∧
        ∀ id row, db.settlements id = some row → id ≠ r.activationId ∨ row.settledAt ≠ none →
          settlements id = some row := by
  have stays : ∃ settlements, db = { db with settlements := settlements } ∧
      ∀ id row, db.settlements id = some row → id ≠ r.activationId ∨ row.settledAt ≠ none →
        settlements id = some row := ⟨db.settlements, rfl, fun _ _ found _ => found⟩
  unfold recordStrandedActivationAuthorityAbsence at recorded
  split at recorded
  · split at recorded
    · cases recorded
      exact ⟨fun _ => rfl, stays⟩
    · split at recorded
      · cases recorded
        exact ⟨fun _ => rfl, stays⟩
      split at recorded
      · cases recorded
        exact ⟨fun _ => rfl, stays⟩
      split at recorded
      · cases recorded
        exact ⟨fun _ => rfl, stays⟩
      cases recorded
      refine ⟨fun other => absurd rfl other, _, rfl, ?_⟩
      intro id row found closed
      rw [Function.update_apply]
      split
      · rename_i same
        subst same
        rw [found, recordedRow, if_neg (closed.resolve_left (fun other => other rfl))]
      · exact found
  · cases recorded

inductive SettleResult
  | notFound | replayed | authorityOwned | notPreparing | systemEnded | jobLive
  | authorityEvidenceMissing | workerEvidenceMissing | evidenceStale | authorityInstanceMismatch
  | authorityJournalMoved | reservationMissing | objectsUnproven | applied
  deriving DecidableEq

structure SettleArguments where
  activationId : Uuid
  principal : Str
  agentSession : Option Str
  actor : Str
  reason : Str

/-- The readings of the clock, in the order in which the statements take them. -/
structure Readings where
  checkedAt : Instant
  verifiedAt : Instant
  supersededAt : Instant
  transactionAt : Instant
  settledAt : Instant

def strippedReason (p : Platform Time) (reason : Str) : Str :=
  (reason.dropWhile p.space).rdropWhile p.space

def argumentsValid (p : Platform Time) (args : SettleArguments) : Bool :=
  let reason := strippedReason p args.reason
  decide (1 ≤ (utf8 reason).length) && decide ((utf8 reason).length ≤ 1024) &&
    args.principal.any (fun c => decide (c ≠ 32)) &&
    decide (args.actor ∈ [str "operator-cli", str "agent", str "unknown"])

/-- `v_known` without the NULLs. -/
def knownRefs (p : Platform Time) (a : ActivationRow) : List Str :=
  [a.materialization.bind (pathText p ["artifacts", "kernel", "ref"]),
    a.materialization.bind (pathText p ["artifacts", "modules", "ref"]),
    a.materialization.bind (pathText p ["artifacts", "initrd", "ref"]),
    a.materialization.bind (pathText p ["artifacts", "debuginfo", "ref"]),
    a.recoveryPoint.bind (pathText p ["recovery_ref", "ref"]),
    a.preRecoveryEvidence.bind (pathText p ["recovery_object", "ref"])].filterMap id

def evidenceLifetime : Nat := 3600000000

def evidenceStale (now : Instant) (system : SystemRow) (absence : AuthorityAbsence)
    (worker : WorkerOwnership) : Bool :=
  decide (min absence.recordedAt.micros worker.recordedAt.micros + evidenceLifetime < now.micros) ||
    decide (some absence.domainName ≠ system.domainName) ||
    decide (some worker.domainName ≠ system.domainName)

def instanceMismatch (db : Database) (id : Uuid) (absence : AuthorityAbsence) : Bool :=
  db.authorities.any (fun a => decide (a.activationId = id) &&
      decide (a.authorityInstance ≠ absence.authorityInstance)) ||
    db.jobs.any (fun j => decide (j.activationId = some (UuidText.text id)) &&
      j.authorityInstance.any (fun i => decide (i ≠ absence.authorityInstance)))

def settleGuards (p : Platform Time) (db : Database) (now : Instant) (id : Uuid)
    (activation : ActivationRow) : Except SettleResult (AuthorityAbsence × ReservationRow) :=
  let system := db.systems activation.systemId
  let settlement := db.settlements id
  if (settlement.bind (·.settledAt)).isSome then .error .replayed
  else if db.ownership activation.systemId then .error .authorityOwned
  else if activation.state ≠ .preparing then .error .notPreparing
  else if system.state = .tornDown ∨ system.state = .tearingDown then .error .systemEnded
  else if db.jobs.any (fun j => j.live &&
      decide (j.systemId = some (UuidText.text activation.systemId))) then .error .jobLive
  else match settlement.bind (·.authority), settlement.bind (·.worker) with
    | none, _ => .error .authorityEvidenceMissing
    | some _, none => .error .workerEvidenceMissing
    | some absence, some worker =>
      if evidenceStale now system absence worker then .error .evidenceStale
      else if instanceMismatch db id absence then .error .authorityInstanceMismatch
      else if db.journalHeads absence.authorityInstance activation.systemId ≠ absence.journal then
        .error .authorityJournalMoved
      else match db.reservations id with
        | none => .error .reservationMissing
        | some reservation =>
          if (knownRefs p activation).any (fun ref => decide (ref ∉ absence.absentObjects)) then
            .error .objectsUnproven
          else .ok (absence, reservation)

/-- `v_refs`, in the order of `convert_to(ref || '"', 'UTF8')`. -/
def orderedRefs (refs : List Str) : List Str :=
  refs.insertionSort (fun a b => textLe (utf8 (a ++ [34])) (utf8 (b ++ [34])) = true)

def refValue (ref : Str) : Value := .object [(str "ref", .text ref)]

/-- `v_release`. -/
def releaseMembers (id systemId : Uuid) (reservation : ReservationRow) (refs : List Str)
    (verifiedAt : Instant) : List (Str × Value) :=
  [(str "schema", .text (str "external-boot-release-evidence-v1")),
    (str "activation_id", .text (UuidText.text id)),
    (str "system_id", .text (UuidText.text systemId)),
    (str "store_identity", refValue reservation.storeIdentity),
    (str "owner_key", refValue reservation.ownerKey),
    (str "reserved_bytes", .int reservation.reservedBytes),
    (str "enumeration_complete", .bool true),
    (str "objects", .array (refs.map fun ref =>
      .object [(str "absent", .bool true), (str "object", refValue ref)])),
    (str "verified_at", .text (toChar verifiedAt))]

def releaseValue (id systemId : Uuid) (reservation : ReservationRow) (refs : List Str)
    (verifiedAt : Instant) : Value :=
  .object (releaseMembers id systemId reservation refs verifiedAt)

def releaseIdentity (p : Platform Time) (release : Value) : Str :=
  str "sha256:" ++ p.sha256 (utf8 (str releaseLabel) ++ [0] ++ utf8 (canonicalAuthorityJson release))

def terminalMembers (id systemId : Uuid) (compositeState : Str) (refs : List Str)
    (observedAt : Instant) : List (Str × Value) :=
  [(str "schema", .text (str "external-boot-terminal-evidence-v1")),
    (str "activation_id", .text (UuidText.text id)),
    (str "system_id", .text (UuidText.text systemId)),
    (str "outcome", .text (str "abandoned")), (str "composite_state", .text compositeState),
    (str "objects", .array (refs.map refValue)), (str "observed_at", .text (toChar observedAt))]

def terminalValue (id systemId : Uuid) (compositeState : Str) (refs : List Str)
    (observedAt : Instant) : Value :=
  .object (terminalMembers id systemId compositeState refs observedAt)

def cleanupMembers (id systemId : Uuid) (releaseIdentity : Str) (completedAt : Instant) :
    List (Str × Value) :=
  [(str "schema", .text (str "external-boot-cleanup-evidence-v1")),
    (str "activation_id", .text (UuidText.text id)),
    (str "system_id", .text (UuidText.text systemId)),
    (str "release_identity", .text releaseIdentity), (str "mode", .text (str "ordinary")),
    (str "completed_at", .text (toChar completedAt))]

def cleanupValue (id systemId : Uuid) (releaseIdentity : Str) (completedAt : Instant) : Value :=
  .object (cleanupMembers id systemId releaseIdentity completedAt)

def releaseChecks (p : Platform Time) (r : ReleaseRow) : Bool :=
  decide (0 < r.reservedBytes) && isDigest r.releaseIdentity &&
    decide (p.columnSize r.releaseEvidence ≤ 65536) &&
    r.teardownEvidence.all (fun v => decide (p.columnSize v ≤ 65536)) &&
    decide (pathText p ["schema"] r.releaseEvidence =
      some (str "external-boot-release-evidence-v1")) &&
    r.teardownEvidence.all (fun v => decide (pathText p ["schema"] v =
      some (str "external-boot-teardown-evidence-v1"))) &&
    decide (pathText p ["activation_id"] r.releaseEvidence = some (UuidText.text r.activationId)) &&
    decide (pathText p ["store_identity", "ref"] r.releaseEvidence = some r.storeIdentity) &&
    decide (pathText p ["owner_key", "ref"] r.releaseEvidence = some r.ownerKey) &&
    decide (pathText p ["reserved_bytes"] r.releaseEvidence = some (intText r.reservedBytes))

def activationChecks (p : Platform Time) (id : Uuid) (a : ActivationRow) : Bool :=
  (!a.cleanupComplete || decide (a.state ∈ cleanupStates)) &&
    (decide (a.state ≠ .abandoned) ||
      decide (a.terminalEvidence.bind (pathText p ["outcome"]) = some (str "abandoned"))) &&
    a.terminalEvidence.all (fun v =>
      decide (pathText p ["schema"] v = some (str "external-boot-terminal-evidence-v1")) &&
      decide (pathText p ["activation_id"] v = some (UuidText.text id)) &&
      decide (pathText p ["system_id"] v = some (UuidText.text a.systemId)) &&
      decide (p.columnSize v ≤ 65536)) &&
    a.cleanupEvidence.all (fun v =>
      decide (pathText p ["schema"] v = some (str "external-boot-cleanup-evidence-v1")) &&
      decide (pathText p ["activation_id"] v = some (UuidText.text id)) &&
      decide (pathText p ["system_id"] v = some (UuidText.text a.systemId)) &&
      decide (p.columnSize v ≤ 65536)) &&
    match a.cleanupEvidence with
    | none => !a.cleanupComplete
    | some v =>
      let mode := pathText p ["mode"] v
      (decide (a.state ∈ ordinaryHistoryStates) && decide (mode = some (str "ordinary")) &&
          a.teardownEvidence.isNone) ||
        (decide (a.state ∈ [.recoveryConflict, .recoveryFailed]) && a.teardownEvidence.isSome &&
          decide (mode ∈ [some (str "system_teardown"), some (str "pending_system_teardown")])) ||
        (decide (a.state = .tornDown) && a.teardownEvidence.isSome &&
          decide (mode ∈ [some (str "ordinary"), some (str "system_teardown"),
            some (str "pending_system_teardown")]))

def releasedRow (p : Platform Time) (id : Uuid) (release : Value) (reservation : ReservationRow) :
    ReleaseRow :=
  ⟨id, reservation.storeIdentity, reservation.ownerKey, reservation.reservedBytes,
    releaseIdentity p release, release, none⟩

def abandonedRow (p : Platform Time) (id : Uuid) (clock : Readings) (activation : ActivationRow)
    (absence : AuthorityAbsence) (release : Value) : ActivationRow :=
  { activation with
    state := .abandoned
    cleanupComplete := true
    terminalEvidence := some (terminalValue id activation.systemId absence.compositeState
      (orderedRefs absence.absentObjects) absence.recordedAt)
    cleanupEvidence := some (cleanupValue id activation.systemId (releaseIdentity p release)
      clock.verifiedAt) }

def supersedeAuthority (id : Uuid) (at_ : Instant) (a : AuthorityRow) : AuthorityRow :=
  if a.activationId = id ∧ (a.state = .allocating ∨ a.state = .current) then
    { a with state := .superseded, supersededAt := some at_ }
  else a

def dischargeObligation (systemId : Uuid) (at_ : Instant) (o : ObligationRow) : ObligationRow :=
  if o.systemId = systemId ∧ o.mutationDischargedAt = none then
    { o with
      mutationDischargedAt := some at_, mutationDischargeReason := some (str "terminal_escape") }
  else o

def settledSettlement (p : Platform Time) (clock : Readings) (args : SettleArguments)
    (row : SettlementRow) : SettlementRow :=
  { row with
    principal := some args.principal
    reason := some (strippedReason p args.reason)
    settledAt := some clock.settledAt }

def auditEntry (p : Platform Time) (args : SettleArguments) : AuditRow :=
  ⟨args.principal, args.agentSession, str "settled:" ++ UuidText.text args.activationId,
    p.sha256 (utf8 (canonicalAuthorityJson (.object [
      (str "activation_id", .text (UuidText.text args.activationId)),
      (str "reason", .text (strippedReason p args.reason))]))), args.actor⟩

def settledRelease (id : Uuid) (clock : Readings) (activation : ActivationRow)
    (absence : AuthorityAbsence) (reservation : ReservationRow) : Value :=
  releaseValue id activation.systemId reservation (orderedRefs absence.absentObjects)
    clock.verifiedAt

def settleWrites (p : Platform Time) (db : Database) (clock : Readings) (args : SettleArguments)
    (activation : ActivationRow) (absence : AuthorityAbsence) (reservation : ReservationRow) :
    Except SqlFault Database :=
  let id := args.activationId
  let release := settledRelease id clock activation absence reservation
  let released := releasedRow p id release reservation
  let abandoned := abandonedRow p id clock activation absence release
  if (db.releases id).isSome then .error .uniqueViolation
  else if releaseChecks p released = false ∨ activationChecks p id abandoned = false then
    .error .checkViolation
  else .ok { db with
    releases := Function.update db.releases id (some released)
    reservations := Function.update db.reservations id none
    activations := Function.update db.activations id (some abandoned)
    authorities := db.authorities.map (supersedeAuthority id clock.supersededAt)
    obligations := db.obligations.map
      (dischargeObligation activation.systemId clock.transactionAt)
    settlements := Function.update db.settlements id
      ((db.settlements id).map (settledSettlement p clock args))
    audit := db.audit ++ [auditEntry p args] }

def settleStrandedExternalBootActivation (p : Platform Time) (db : Database) (clock : Readings)
    (args : SettleArguments) : Except SqlFault (SettleResult × Database) :=
  if argumentsValid p args = false then .error .invalidParameter
  else match db.activations args.activationId with
    | none => .ok (.notFound, db)
    | some activation =>
      match settleGuards p db clock.checkedAt args.activationId activation with
      | .error result => .ok (result, db)
      | .ok (absence, reservation) =>
        (fun db' => (.applied, db')) <$>
          settleWrites p db clock args activation absence reservation

/-- `authority_store_identity` of the inventory: a text that is not blank. -/
def inventoryAccepts (p : Platform Time) (value : Str) : Bool :=
  decide (1 ≤ value.length) && decide (value.length ≤ 1024) && value.any (fun c => !p.space c)

structure Geometry (p : Platform Time) where
  storeIdentity : Str
  reserveBytes : Int
  accepted : inventoryAccepts p storeIdentity = true
  positive : 0 < reserveBytes
  bigint : reserveBytes < 2 ^ 63

def reservationOf (p : Platform Time) (geometry : Geometry p) (seed : Str) : ReservationRow :=
  ⟨geometry.storeIdentity, str "external-boot/" ++ p.sha256 (utf8 seed), geometry.reserveBytes⟩

end Program

section Reading

variable {Time : Type} {p : Platform Time}

theorem find?_of_nodup {members : List (Str × Value)} {name : Str} {v : Value}
    (distinct : (members.map Prod.fst).Nodup) (mem : (name, v) ∈ members) :
    members.find? (fun m => decide (m.1 = name)) = some (name, v) := by
  induction members with
  | nil => simp at mem
  | cons m rest ih =>
    simp only [List.map_cons, List.nodup_cons, List.mem_map, not_exists, not_and] at distinct
    rcases List.mem_cons.mp mem with rfl | later
    · simp
    · have other : m.1 ≠ name := fun same => distinct.1 (name, v) later same.symm
      rw [List.find?_cons_of_neg (by simpa using other)]
      exact ih distinct.2 later

theorem lookup_of_mem {members : List (Str × Value)} {name : Str} {v : Value}
    (distinct : (members.map Prod.fst).Nodup) (mem : (name, v) ∈ members) :
    lookup members name = some v := by
  have reversed : (members.reverse.map Prod.fst).Nodup := by
    rw [List.map_reverse]
    exact List.nodup_reverse.mpr distinct
  rw [lookup, find?_of_nodup reversed (List.mem_reverse.mpr mem)]
  rfl

theorem lookup_of_absent {members : List (Str × Value)} {name : Str}
    (absent : name ∉ members.map Prod.fst) : lookup members name = none := by
  rw [lookup, List.find?_eq_none.mpr, Option.map_none]
  intro m mem
  have other : m.1 ≠ name := fun same => absent (List.mem_map.mpr ⟨m, List.mem_reverse.mp mem, same⟩)
  simpa using other

theorem closed_object {names : List Str} {members : List (Str × Value)}
    (known : ∀ m ∈ members, m.1 ∈ names) : closed names (.object members) = .ok members := by
  have all : members.all (fun m => decide (m.1 ∈ names)) = true := by simpa using known
  simp only [closed, all, if_true]

theorem required_of_mem {α : Type} {members : List (Str × Value)} {name : String} {v : Value}
    (distinct : (members.map Prod.fst).Nodup) (mem : (str name, v) ∈ members)
    (read : Value → Checked α) : required members name read = read v := by
  simp only [required, lookup_of_mem distinct mem]

theorem defaulted_of_mem {α : Type} {members : List (Str × Value)} {name : String} {v : Value}
    (distinct : (members.map Prod.fst).Nodup) (mem : (str name, v) ∈ members) (default : α)
    (read : Value → Checked α) : defaulted members name default read = read v := by
  simp only [defaulted, lookup_of_mem distinct mem]

theorem defaulted_of_absent {α : Type} {members : List (Str × Value)} {name : String}
    (absent : str name ∉ members.map Prod.fst) (default : α) (read : Value → Checked α) :
    defaulted members name default read = .ok default := by
  simp only [defaulted, lookup_of_absent absent]

theorem readLiteral_self (literal : String) : readLiteral literal (.text (str literal)) = .ok () := by
  simp [readLiteral]

theorem readUuid_text (lawful : p.Lawful) (u : Uuid) :
    readUuid p (.text (UuidText.text u)) = .ok u := by
  simp only [readUuid, lawful.read_uuid]

theorem readAll_map {α β : Type} {read : Value → Checked β} {write : α → Value} {f : α → β}
    {items : List α} (reads : ∀ i ∈ items, read (write i) = .ok (f i)) :
    readAll read (items.map write) = .ok (items.map f) := by
  induction items with
  | nil => rfl
  | cons i rest ih =>
    have first := reads i (by simp)
    have others := ih (fun j mem => reads j (List.mem_cons_of_mem _ mem))
    simp only [List.map_cons, readAll, first, others]
    rfl

def Opaque (p : Platform Time) (value : Str) : Prop :=
  value.length ≤ 1024 ∧ opaqueRefText p value = .ok value

instance (value : Str) : Decidable (Opaque p value) := by unfold Opaque; infer_instance

theorem opaqueRefText_eq {value result : Str} (read : opaqueRefText p value = .ok result) :
    result = value := by
  unfold opaqueRefText nfc at read
  split_ifs at read with empty
  · cases read
  · dsimp only [bind, Except.bind] at read
    split_ifs at read
    exact (Except.ok.inj read).symm

theorem readRef_value (ref : Str) : readRef p (refValue ref) =
    if ref.length ≤ 1024 then OpaqueProviderRef.mk <$> opaqueRefText p ref else .error .invalid := by
  have members : closed [str "ref"] (refValue ref) = .ok [(str "ref", .text ref)] :=
    closed_object (by simp)
  have field := @required_of_mem Str [(str "ref", .text ref)] "ref" (.text ref) (by simp) (by simp)
    (readText fun s => decide (s.length ≤ 1024))
  simp only [readRef, members, field, readText, decide_eq_true_eq, bind, Except.bind]
  split_ifs with short
  · dsimp only
    cases opaqueRefText p ref with
    | error e => rfl
    | ok value => rfl
  · rfl

theorem readRef_of_grammar {ref : Str} (grammar : Opaque p ref) :
    readRef p (refValue ref) = .ok ⟨ref⟩ := by
  rw [readRef_value, if_pos grammar.1, grammar.2]
  rfl

theorem readRef_ok {ref : Str} {r : OpaqueProviderRef} (read : readRef p (refValue ref) = .ok r) :
    r.ref = ref ∧ Opaque p ref := by
  rw [readRef_value] at read
  split_ifs at read with short
  · cases outcome : opaqueRefText p ref with
    | error e =>
      rw [outcome] at read
      cases read
    | ok value =>
      rw [outcome] at read
      obtain rfl := Except.ok.inj read
      have same := opaqueRefText_eq outcome
      subst same
      exact ⟨rfl, short, outcome⟩

end Reading

section References

variable {Time : Type} {p : Platform Time}

structure PlainRef (ref : Str) : Prop where
  nonempty : ref ≠ []
  short : ref.length ≤ 1024
  printable : ∀ c ∈ ref, 32 ≤ c ∧ c ≤ 126
  marks : ∀ c ∈ ref, c ∉ [34, 92, 58, 64]
  segments : (ref.splitOn 47).any dotSegment = false

theorem plainRef_of_absentRef {ref : Str} (checked : absentRef ref = true) : PlainRef ref := by
  simp only [absentRef, Bool.and_eq_true, decide_eq_true_eq, List.all_eq_true,
    Bool.not_eq_true'] at checked
  obtain ⟨⟨⟨⟨some_byte, few⟩, printable⟩, marks⟩, segments⟩ := checked
  have bytes : utf8 ref = ref := utf8_ascii (fun c mem => by have := printable c mem; omega)
  rw [bytes] at some_byte few
  refine ⟨fun empty => by simp [empty] at some_byte, few, printable, ?_, segments⟩
  intro c mem found
  have none_found := List.any_eq_false.mp marks c mem
  exact none_found (by simpa using found)

theorem head?_of_segments {ref : Str} (segments : (ref.splitOn 47).any dotSegment = false) :
    ref.head? ≠ some 47 := by
  cases ref with
  | nil => simp
  | cons c rest =>
    intro slash
    obtain rfl : c = 47 := by simpa using slash
    have first : ([] : Str) ∈ (47 :: rest).splitOn 47 := by
      rw [List.splitOn, List.splitOnP_cons_eq_if_modifyHead]
      simp
    have dotted := List.any_eq_false.mp segments [] first
    exact dotted rfl

theorem PlainRef.grammar (lawful : p.Lawful) {ref : Str} (plain : PlainRef ref) : Opaque p ref := by
  have ascii : ∀ c ∈ ref, c < 128 := fun c mem => by have := plain.printable c mem; omega
  have normal : nfc p ref = .ok ref := by
    rw [nfc, if_neg]
    rintro (empty | other)
    · exact plain.nonempty empty
    · exact other (lawful.nfc_ascii ref ascii)
  have visible : ref.all p.printable = true := by
    rw [List.all_eq_true]
    intro c mem
    exact lawful.printable_ascii c (plain.printable c mem).1 (plain.printable c mem).2
  have unmarked : ref.any (fun c => decide (c ∈ [92, 58, 64])) = false := by
    rw [List.any_eq_false]
    intro c mem
    have := plain.marks c mem
    simp only [List.mem_cons, List.not_mem_nil, or_false, not_or] at this
    simp [this]
  have allowed : isOpaque p ref = true := by
    simp only [isOpaque, head?_of_segments plain.segments, plain.segments, visible, unmarked]
    rfl
  refine ⟨plain.short, ?_⟩
  simp only [opaqueRefText, normal, bind, Except.bind, allowed, if_true]

theorem PlainRef.quotedWide {ref : Str} (plain : PlainRef ref) :
    quotedWide ref = [34] ++ ref ++ [34] := by
  rw [CanonicalJson.quotedWide, flatMap_plain]
  intro c mem
  have marks := plain.marks c mem
  have range := plain.printable c mem
  simp only [List.mem_cons, List.not_mem_nil, or_false, not_or] at marks
  rw [escapeWide, if_neg (by omega)]

theorem PlainRef.quoted {ref : Str} (plain : PlainRef ref) :
    quoted ref = [34] ++ ref ++ [34] := by
  rw [JsonText.quoted, flatMap_plain]
  intro c mem
  have marks := plain.marks c mem
  have range := plain.printable c mem
  simp only [List.mem_cons, List.not_mem_nil, or_false, not_or] at marks
  have inside : 32 ≤ c ∧ c ≤ 126 := range
  rw [escape, if_neg (by omega), if_neg (by omega), if_neg (by omega), if_neg (by omega),
    if_neg (by omega), if_neg (by omega), if_neg (by omega), if_pos inside]

theorem PlainRef.utf8 {ref front tail : Str} (plain : PlainRef ref) (before : ∀ c ∈ front, c < 128)
    (after : ∀ c ∈ tail, c < 128) : utf8 (front ++ (ref ++ tail)) = front ++ (ref ++ tail) := by
  apply utf8_ascii
  intro c mem
  rcases List.mem_append.mp mem with early | mem
  · exact before c early
  · rcases List.mem_append.mp mem with inside | late
    · have := plain.printable c inside
      omega
    · exact after c late

theorem canonicalObjects_ordered (noun : String) (front tail : Str) {refs : List Str}
    (plain : ∀ ref ∈ refs, PlainRef ref) (distinct : refs.Nodup) :
    canonicalObjects noun
      ((orderedRefs refs).map fun ref => front ++ (ref ++ 34 :: tail)) = .ok () := by
  have same : (orderedRefs refs).Perm refs := List.perm_insertionSort _ refs
  have plain' : ∀ ref ∈ orderedRefs refs, PlainRef ref :=
    fun ref mem => plain ref (same.mem_iff.mp mem)
  have ordered := pairwise_insertionSort_by (fun ref => utf8 (ref ++ [34])) refs
  have sorted : ((orderedRefs refs).map fun ref => front ++ (ref ++ 34 :: tail)).Pairwise
      (fun a b => textLe a b = true) := by
    rw [List.pairwise_map]
    refine ordered.imp_of_mem ?_
    intro a b memA memB below
    have bytes : ∀ ref ∈ orderedRefs refs, utf8 (ref ++ [34]) = ref ++ [34] := fun ref mem =>
      @PlainRef.utf8 ref [] [34] (plain' ref mem) (by simp) (by simp)
    rw [bytes a memA, bytes b memB] at below
    have unquoted : ∀ ref ∈ orderedRefs refs, 34 ∉ ref := fun ref mem inside =>
      (plain' ref mem).marks 34 inside (by simp)
    exact textLe_append_left front (textLe_mark (unquoted a memA) (unquoted b memB) below)
  have once : ((orderedRefs refs).map fun ref => front ++ (ref ++ 34 :: tail)).Nodup := by
    refine (same.nodup_iff.mpr distinct).map ?_
    intro a b equal
    simpa using equal
  rw [canonicalObjects, if_neg (not_not.mpr once), if_neg]
  rw [not_not, sortTexts, sorted.insertionSort_eq]

end References

section Evidence

variable {Time : Type} {p : Platform Time}

theorem escapeSql_eq : escapeSql = escapeWide := by
  funext c
  unfold escapeSql escapeWide escape
  split_ifs <;> first | rfl | omega

theorem canonicalAuthorityJson_eq (v : Value) :
    canonicalAuthorityJson v = canonical quotedWide v := by
  have quoting : quotedSql = quotedWide := by
    funext s
    rw [quotedSql, quotedWide, escapeSql_eq]
  rw [canonicalAuthorityJson, quoting]

theorem canonical_refValue (quote : Str → Str) (ref : Str) :
    canonical quote (refValue ref) = [123] ++ (quote (str "ref") ++ [58] ++ quote ref) ++ [125] := by
  simp only [refValue, canonical, canonicalMembers, membersText, sortByKey, List.insertionSort_cons, List.insertionSort_nil, List.orderedInsert_nil,
    List.map_cons, List.map_nil, List.intercalate_singleton]

theorem sortByKey_releaseObject (a b : Str) :
    sortByKey [(str "object", a), (str "absent", b)] = [(str "absent", b), (str "object", a)] := by
  have distinct : ([(str "object", a), (str "absent", b)].map Prod.fst).Nodup := by
    simp [str]
  rw [sortByKey_perm (List.Perm.swap _ _ _) distinct, sortByKey, List.Pairwise.insertionSort_eq]
  simp [str, textLe]

theorem canonical_releaseObject (quote : Str → Str) (ref : Str) :
    canonical quote (dumpReleaseObject ⟨⟨ref⟩⟩) =
      [123] ++ (quote (str "absent") ++ [58] ++ str "true" ++ [44] ++
        (quote (str "object") ++ [58] ++ canonical quote (refValue ref))) ++ [125] := by
  have members : canonical quote (dumpReleaseObject ⟨⟨ref⟩⟩) = membersText quote
      [(str "object", canonical quote (refValue ref)), (str "absent", str "true")] := by
    simp only [dumpReleaseObject, dumpRef, refValue, canonical, canonicalMembers, if_true]
  rw [members, membersText, sortByKey_releaseObject]
  simp only [List.map_cons, List.map_nil, List.intercalate_cons_cons, List.intercalate_singleton]

theorem canonicalObjects_refs {refs : List Str} (plain : ∀ ref ∈ refs, PlainRef ref)
    (distinct : refs.Nodup) : canonicalObjects "object references"
      (encodedRefs ((orderedRefs refs).map OpaqueProviderRef.mk)) = .ok () := by
  have same : (orderedRefs refs).Perm refs := List.perm_insertionSort _ refs
  have encoded : encodedRefs ((orderedRefs refs).map OpaqueProviderRef.mk) =
      (orderedRefs refs).map fun ref =>
        ([123] ++ quotedWide (str "ref") ++ [58, 34]) ++ (ref ++ 34 :: [125]) := by
    rw [encodedRefs, List.map_map]
    apply List.map_congr_left
    intro ref mem
    have plain' := plain ref (same.mem_iff.mp mem)
    have text : canonical quotedWide (dumpRef ⟨ref⟩) =
        ([123] ++ quotedWide (str "ref") ++ [58, 34]) ++ (ref ++ 34 :: [125]) := by
      rw [show dumpRef ⟨ref⟩ = refValue ref from rfl, canonical_refValue, plain'.quotedWide]
      simp
    rw [Function.comp_apply, canonicalJson, text]
    exact plain'.utf8 (by decide) (by decide)
  rw [encoded]
  exact canonicalObjects_ordered _ _ _ plain distinct

theorem canonicalObjects_releaseObjects {refs : List Str} (plain : ∀ ref ∈ refs, PlainRef ref)
    (distinct : refs.Nodup) : canonicalObjects "release objects" (encodedReleaseObjects
      ((orderedRefs refs).map fun ref => ⟨⟨ref⟩⟩)) = .ok () := by
  have same : (orderedRefs refs).Perm refs := List.perm_insertionSort _ refs
  have encoded : encodedReleaseObjects ((orderedRefs refs).map fun ref => ⟨⟨ref⟩⟩) =
      (orderedRefs refs).map fun ref =>
        ([123] ++ quoted (str "absent") ++ [58] ++ str "true" ++ [44] ++ quoted (str "object") ++
          [58, 123] ++ quoted (str "ref") ++ [58, 34]) ++ (ref ++ 34 :: [125, 125]) := by
    rw [encodedReleaseObjects, List.map_map]
    apply List.map_congr_left
    intro ref mem
    have plain' := plain ref (same.mem_iff.mp mem)
    have text : canonical quoted (dumpReleaseObject ⟨⟨ref⟩⟩) =
        ([123] ++ quoted (str "absent") ++ [58] ++ str "true" ++ [44] ++ quoted (str "object") ++
          [58, 123] ++ quoted (str "ref") ++ [58, 34]) ++ (ref ++ 34 :: [125, 125]) := by
      rw [canonical_releaseObject, canonical_refValue, plain'.quoted]
      simp
    rw [Function.comp_apply, text]
    exact plain'.utf8 (by decide) (by decide)
  rw [encoded]
  exact canonicalObjects_ordered _ _ _ plain distinct

theorem length_toChar (i : Instant) : (toChar i).length = 20 := by
  simp [toChar, IsoTime.length_pad]

theorem length_uuidText (u : Uuid) : (UuidText.text u).length = 36 := by
  simp [UuidText.text, UuidText.length_hexPad]

theorem length_text_le {s : Str} {n : Nat} (short : s.length ≤ n) :
    (utf8 (canonical quotedWide (.text s))).length ≤ 6 * n + 2 := by
  have bound := length_utf8_quotedWide s
  rw [canonical]
  omega

theorem length_refValue_le {ref : Str} {n : Nat} (short : ref.length ≤ n) :
    (utf8 (canonical quotedWide (refValue ref))).length ≤ 6 * n + 10 := by
  have bound := length_utf8_quotedWide ref
  have key : (utf8 ([123] ++ (quotedWide (str "ref") ++ [58]))).length = 7 := by decide
  have closing : (utf8 [125]).length = 1 := rfl
  rw [canonical_refValue, ← List.append_assoc, utf8_append, utf8_append, List.length_append,
    List.length_append]
  omega

theorem length_plain_refValue {ref : Str} (plain : PlainRef ref) :
    (utf8 (canonical quotedWide (refValue ref))).length ≤ 1034 := by
  have key : (utf8 ([123] ++ (quotedWide (str "ref") ++ [58]))).length = 7 := by decide
  have closing : (utf8 [125]).length = 1 := rfl
  have inside : (utf8 (quotedWide ref)).length ≤ 1026 := by
    rw [plain.quotedWide, List.append_assoc, plain.utf8 (by simp) (by simp)]
    have := plain.short
    simp
    omega
  rw [canonical_refValue, ← List.append_assoc, utf8_append, utf8_append, List.length_append,
    List.length_append]
  omega

theorem length_plain_releaseObject {ref : Str} (plain : PlainRef ref) :
    (utf8 (canonical quotedWide (dumpReleaseObject ⟨⟨ref⟩⟩))).length ≤ 1060 := by
  have inside := length_plain_refValue plain
  have before : (utf8 ([123] ++ (quotedWide (str "absent") ++ [58] ++ str "true" ++ [44] ++
      (quotedWide (str "object") ++ [58])))).length = 24 := by decide
  have closing : (utf8 [125]).length = 1 := rfl
  have text : canonical quotedWide (dumpReleaseObject ⟨⟨ref⟩⟩) = ([123] ++
      (quotedWide (str "absent") ++ [58] ++ str "true" ++ [44] ++
        (quotedWide (str "object") ++ [58]))) ++ canonical quotedWide (refValue ref) ++ [125] := by
    rw [canonical_releaseObject]
    simp
  rw [text, utf8_append, utf8_append, List.length_append, List.length_append]
  omega

theorem sizeBounded_of_le {dumped : Value}
    (small : (utf8 (canonical quotedWide dumped)).length ≤ 65536) : sizeBounded dumped = .ok () := by
  rw [sizeBounded, if_neg]
  exact Nat.not_lt.mpr small

/-- The members of an object whose keys have at most 24 letters, with a bound for each value. -/
theorem length_object_le {members : List (Str × Value)} {bounds : List Nat}
    (short : ∀ name ∈ members.map Prod.fst, name.length ≤ 24)
    (fits : List.Forall₂ (fun m n => (utf8 (canonical quotedWide m.2)).length ≤ n) members bounds) :
    (utf8 (canonical quotedWide (.object members))).length ≤
      (bounds.map (· + 148)).sum + 2 := by
  have whole := length_utf8_membersText quotedWide (canonicalMembers quotedWide members)
  have total : ((canonicalMembers quotedWide members).map
      (fun m => (utf8 (quotedWide m.1)).length + (utf8 m.2).length + 2)).sum ≤
      (bounds.map (· + 148)).sum := by
    clear whole
    induction fits with
    | nil => simp [canonicalMembers]
    | @cons m n rest bounds first others ih =>
      have name : m.1.length ≤ 24 := short m.1 (by simp)
      have key := length_utf8_quotedWide m.1
      have later := ih (fun other mem => short other (by simp [List.mem_map.mp mem]))
      simp only [canonicalMembers, List.map_cons, List.sum_cons] at later ⊢
      omega
  rw [canonical]
  omega

theorem readUtc_toChar (lawful : p.Lawful) (i : Instant) :
    ∃ t, readUtc p (.text (toChar i)) = .ok t ∧ p.timeText t = toChar i := by
  obtain ⟨t, read, utc, written⟩ := lawful.read_second i
  refine ⟨t, ?_, written⟩
  simp only [readUtc, read, utc, if_true]

theorem length_of_isDigest {s : Str} (digest : isDigest s = true) : s.length = 71 := by
  simp only [isDigest, Bool.and_eq_true, decide_eq_true_eq, List.length_drop] at digest
  omega

section Terminal

variable {id systemId : Uuid} {compositeState : Str} {refs : List Str} {at_ : Instant}

theorem terminal_distinct :
    ((terminalMembers id systemId compositeState (orderedRefs refs) at_).map Prod.fst).Nodup :=
  (by decide : terminalNames.Nodup)

theorem terminal_size (digest : isDigest compositeState = true) (few : refs.length ≤ 32)
    (plain : ∀ ref ∈ refs, PlainRef ref) : sizeBounded
      (terminalValue id systemId compositeState (orderedRefs refs) at_) = .ok () := by
  have same : (orderedRefs refs).Perm refs := List.perm_insertionSort _ refs
  have array := @length_utf8_array quotedWide ((orderedRefs refs).map refValue) 1034 (by
    intro v mem
    obtain ⟨ref, inside, rfl⟩ := List.mem_map.mp mem
    exact length_plain_refValue (plain ref (same.mem_iff.mp inside)))
  rw [List.length_map, same.length_eq] at array
  apply sizeBounded_of_le
  refine (length_object_le (by show ∀ name ∈ terminalNames, name.length ≤ 24; decide)
    (.cons (@length_text_le _ 40 (by decide))
    (.cons (length_text_le (length_uuidText _).le)
    (.cons (length_text_le (length_uuidText _).le)
    (.cons (@length_text_le _ 10 (by decide))
    (.cons (length_text_le (length_of_isDigest digest).le)
    (.cons array
    (.cons (length_text_le (length_toChar _).le) .nil)))))))).trans ?_
  simp only [List.map_cons, List.map_nil, List.sum_cons, List.sum_nil]
  omega

theorem readTerminal_value (lawful : p.Lawful) (digest : isDigest compositeState = true)
    (few : refs.length ≤ 32) (plain : ∀ ref ∈ refs, PlainRef ref) (distinct : refs.Nodup) :
    ∃ t, readTerminal p (terminalValue id systemId compositeState (orderedRefs refs) at_) =
      .ok ⟨id, systemId, .abandoned, compositeState, (orderedRefs refs).map .mk, t⟩ := by
  obtain ⟨t, read, written⟩ := readUtc_toChar lawful at_
  refine ⟨t, ?_⟩
  have same : (orderedRefs refs).Perm refs := List.perm_insertionSort _ refs
  have objects : readArray (readRef p) (.array ((orderedRefs refs).map refValue)) =
      .ok ((orderedRefs refs).map .mk) :=
    readAll_map (fun ref mem => readRef_of_grammar ((plain ref (same.mem_iff.mp mem)).grammar lawful))
  have dumped : dumpTerminal p ⟨id, systemId, .abandoned, compositeState,
      (orderedRefs refs).map .mk, t⟩ =
      terminalValue id systemId compositeState (orderedRefs refs) at_ := by
    simp only [dumpTerminal, terminalValue, terminalMembers, TerminalOutcome.name, written,
      List.map_map]
    rfl
  have members : closed terminalNames (terminalValue id systemId compositeState
      (orderedRefs refs) at_) = .ok (terminalMembers id systemId compositeState
      (orderedRefs refs) at_) := closed_object (by simp [terminalNames, terminalMembers])
  have digestRead : readText isDigest (.text compositeState) = .ok compositeState := by
    simp only [readText, digest, if_true]
  have outcome : readOutcome (.text (str "abandoned")) = .ok .abandoned := by decide
  have size := @terminal_size id systemId compositeState refs at_ digest few plain
  have field := @terminal_distinct id systemId compositeState refs at_
  -- Each member is found under its name, and read.
  have schema := (@defaulted_of_mem Unit _ "schema" _ field (by simp [terminalMembers]) ()
    (readLiteral "external-boot-terminal-evidence-v1")).trans (readLiteral_self _)
  have activation := (@required_of_mem _ _ "activation_id" _ field (by simp [terminalMembers])
    (readUuid p)).trans (readUuid_text lawful id)
  have system := (@required_of_mem _ _ "system_id" _ field (by simp [terminalMembers])
    (readUuid p)).trans (readUuid_text lawful systemId)
  have ended := (@required_of_mem _ _ "outcome" _ field (by simp [terminalMembers])
    readOutcome).trans outcome
  have state := (@required_of_mem _ _ "composite_state" _ field (by simp [terminalMembers])
    (readText isDigest)).trans digestRead
  have listed := (@required_of_mem _ _ "objects" _ field (by simp [terminalMembers])
    (readArray (readRef p))).trans objects
  have observed := (@required_of_mem _ _ "observed_at" _ field (by simp [terminalMembers])
    (readUtc p)).trans read
  simp only [readTerminal, members, schema, activation, system, ended, state, listed, observed,
    canonicalObjects_refs plain distinct, dumped, size, bind, Except.bind, pure, Except.pure]

end Terminal

section Cleanup

variable {id systemId : Uuid} {released : Str} {at_ : Instant}

theorem readCleanup_value (lawful : p.Lawful) (digest : isDigest released = true) :
    ∃ t, readCleanup p (cleanupValue id systemId released at_) =
      .ok ⟨id, systemId, some released, .ordinary, none, t⟩ := by
  obtain ⟨t, read, written⟩ := readUtc_toChar lawful at_
  refine ⟨t, ?_⟩
  have members : closed cleanupNames (cleanupValue id systemId released at_) =
      .ok (cleanupMembers id systemId released at_) :=
    closed_object (by simp [cleanupNames, cleanupMembers])
  have size : sizeBounded (dumpCleanup p ⟨id, systemId, some released, .ordinary, none, t⟩) =
      .ok () := by
    apply sizeBounded_of_le
    rw [dumpCleanup, written]
    refine (length_object_le (by show ∀ name ∈ cleanupNames, name.length ≤ 24; decide)
      (.cons (@length_text_le _ 40 (by decide))
      (.cons (length_text_le (length_uuidText _).le)
      (.cons (length_text_le (length_uuidText _).le)
      (.cons (length_text_le (length_of_isDigest digest).le)
      (.cons (@length_text_le (str "ordinary") 10 (by decide))
      (.cons (show (utf8 (canonical quotedWide .null)).length ≤ 4 by decide)
      (.cons (length_text_le (length_toChar _).le) .nil)))))))).trans ?_
    simp only [List.map_cons, List.map_nil, List.sum_cons, List.sum_nil]
    omega
  have field : ((cleanupMembers id systemId released at_).map Prod.fst).Nodup :=
    (by decide : ([str "schema", str "activation_id", str "system_id", str "release_identity",
      str "mode", str "completed_at"] : List Str).Nodup)
  have digestRead : readOptional (readText isDigest) (.text released) = .ok (some released) := by
    simp only [readOptional, readText, digest, if_true]
    rfl
  have ordinary : readMode (.text (str "ordinary")) = .ok .ordinary := by decide
  have missing : str "teardown_identity" ∉ (cleanupMembers id systemId released at_).map Prod.fst :=
    (by decide : str "teardown_identity" ∉ ([str "schema", str "activation_id", str "system_id",
      str "release_identity", str "mode", str "completed_at"] : List Str))
  have schema := (@defaulted_of_mem Unit _ "schema" _ field (by simp [cleanupMembers]) ()
    (readLiteral "external-boot-cleanup-evidence-v1")).trans (readLiteral_self _)
  have activation := (@required_of_mem _ _ "activation_id" _ field (by simp [cleanupMembers])
    (readUuid p)).trans (readUuid_text lawful id)
  have system := (@required_of_mem _ _ "system_id" _ field (by simp [cleanupMembers])
    (readUuid p)).trans (readUuid_text lawful systemId)
  have named := (@defaulted_of_mem _ _ "release_identity" _ field (by simp [cleanupMembers]) none
    (readOptional (readText isDigest))).trans digestRead
  have mode := (@required_of_mem _ _ "mode" _ field (by simp [cleanupMembers])
    readMode).trans ordinary
  have teardown := @defaulted_of_absent _ _ "teardown_identity" missing none
    (readOptional (readText isDigest))
  have completed := (@required_of_mem _ _ "completed_at" _ field (by simp [cleanupMembers])
    (readUtc p)).trans read
  have fits : modeMatchesTeardown
      (⟨id, systemId, some released, .ordinary, none, t⟩ : CleanupEvidence Time) = .ok () := by
    simp [modeMatchesTeardown]
  simp only [readCleanup, members, schema, activation, system, named, mode, teardown, completed,
    size, fits, bind, Except.bind, pure, Except.pure]

end Cleanup

section Release

variable {id systemId : Uuid} {reservation : ReservationRow} {refs : List Str} {at_ : Instant}

theorem release_distinct :
    ((releaseMembers id systemId reservation (orderedRefs refs) at_).map Prod.fst).Nodup :=
  (by decide : releaseNames.Nodup)

theorem canonical_objectValue (ref : Str) :
    canonical quotedWide (.object [(str "absent", .bool true), (str "object", refValue ref)]) =
      canonical quotedWide (dumpReleaseObject ⟨⟨ref⟩⟩) := by
  have distinct : ([(str "absent", Value.bool true), (str "object", refValue ref)].map
      Prod.fst).Nodup := by simp [str]
  exact canonical_object_perm quotedWide (List.Perm.swap _ _ _) distinct

theorem readReleaseObject_value {ref : Str} (grammar : Opaque p ref) :
    readReleaseObject p (.object [(str "absent", .bool true), (str "object", refValue ref)]) =
      .ok ⟨⟨ref⟩⟩ := by
  have field : ([(str "absent", Value.bool true), (str "object", refValue ref)].map
      Prod.fst).Nodup := by simp [str]
  have members : closed [str "object", str "absent"]
      (.object [(str "absent", .bool true), (str "object", refValue ref)]) =
      .ok [(str "absent", .bool true), (str "object", refValue ref)] := closed_object (by simp)
  have object := (@required_of_mem _ _ "object" _ field (by simp)
    (readRef p)).trans (readRef_of_grammar grammar)
  have absent := @defaulted_of_mem Unit _ "absent" (.bool true) field (by simp) () readTrue
  simp only [readReleaseObject, members, object, absent, readTrue, bind, Except.bind, pure,
    Except.pure]

theorem plainRef_ownerKey (lawful : p.Lawful) (seed : List Nat) :
    PlainRef (str "external-boot/" ++ p.sha256 seed) := by
  have lower : ∀ c ∈ p.sha256 seed, (48 ≤ c ∧ c ≤ 57) ∨ (97 ≤ c ∧ c ≤ 102) :=
    lawful.sha256_lower seed
  have each : ∀ c ∈ str "external-boot/" ++ p.sha256 seed,
      32 ≤ c ∧ c ≤ 126 ∧ c ∉ [34, 92, 58, 64] := by
    intro c mem
    rcases List.mem_append.mp mem with early | late
    · exact (by decide : ∀ c ∈ str "external-boot/", 32 ≤ c ∧ c ≤ 126 ∧ c ∉ [34, 92, 58, 64]) c early
    · have := lower c late
      simp only [List.mem_cons, List.not_mem_nil, or_false, not_or]
      omega
  refine ⟨by simp [str], ?_, fun c mem => ⟨(each c mem).1, (each c mem).2.1⟩,
    fun c mem => (each c mem).2.2, ?_⟩
  · rw [List.length_append, lawful.sha256_length]
    decide
  · have slash : 47 ∉ p.sha256 seed := fun mem => by have := lower 47 mem; omega
    have front : 47 ∉ str "external-boot" := by decide
    have split : (str "external-boot/" ++ p.sha256 seed).splitOn 47 =
        [str "external-boot", p.sha256 seed] := by
      have shape : str "external-boot/" ++ p.sha256 seed =
          str "external-boot" ++ 47 :: p.sha256 seed := by simp [str]
      rw [shape, List.splitOn_append_cons_self, List.splitOn_eq_singleton front,
        List.splitOn_eq_singleton slash]
      rfl
    have long : p.sha256 seed ∉ ([[], [46], [46, 46]] : List Str) := by
      intro mem
      have size := lawful.sha256_length seed
      simp only [List.mem_cons, List.not_mem_nil, or_false] at mem
      rcases mem with same | same | same <;> simp [same] at size
    have first : dotSegment (str "external-boot") = false := by decide
    simp only [split, List.any_cons, List.any_nil, Bool.or_false, first, Bool.false_or]
    simpa [dotSegment] using long

theorem release_size (short : reservation.storeIdentity.length ≤ 1024)
    (owner : PlainRef reservation.ownerKey) (positive : 0 < reservation.reservedBytes)
    (bigint : reservation.reservedBytes < 2 ^ 63) (few : refs.length ≤ 32)
    (plain : ∀ ref ∈ refs, PlainRef ref) : sizeBounded
      (releaseValue id systemId reservation (orderedRefs refs) at_) = .ok () := by
  have same : (orderedRefs refs).Perm refs := List.perm_insertionSort _ refs
  have array := @length_utf8_array quotedWide ((orderedRefs refs).map fun ref =>
      .object [(str "absent", .bool true), (str "object", refValue ref)]) 1060 (by
    intro v mem
    obtain ⟨ref, inside, rfl⟩ := List.mem_map.mp mem
    rw [canonical_objectValue]
    exact length_plain_releaseObject (plain ref (same.mem_iff.mp inside)))
  rw [List.length_map, same.length_eq] at array
  have number : (utf8 (canonical quotedWide (.int reservation.reservedBytes))).length ≤ 19 := by
    rw [canonical]
    exact length_utf8_intText positive (by omega)
  apply sizeBounded_of_le
  refine (length_object_le (by show ∀ name ∈ releaseNames, name.length ≤ 24; decide)
    (.cons (@length_text_le _ 40 (by decide))
    (.cons (length_text_le (length_uuidText _).le)
    (.cons (length_text_le (length_uuidText _).le)
    (.cons (length_refValue_le short)
    (.cons (length_plain_refValue owner)
    (.cons number
    (.cons (show (utf8 (canonical quotedWide (.bool true))).length ≤ 4 by decide)
    (.cons array
    (.cons (length_text_le (length_toChar _).le) .nil)))))))))).trans ?_
  simp only [List.map_cons, List.map_nil, List.sum_cons, List.sum_nil]
  omega

theorem canonical_dumpRelease {t : Time} (written : p.timeText t = toChar at_) :
    canonical quotedWide (dumpRelease p ⟨id, systemId, ⟨reservation.storeIdentity⟩,
      ⟨reservation.ownerKey⟩, reservation.reservedBytes,
      (orderedRefs refs).map (fun ref => ⟨⟨ref⟩⟩), t⟩) =
    canonical quotedWide (releaseValue id systemId reservation (orderedRefs refs) at_) := by
  have objects : canonical quotedWide (.array (((orderedRefs refs).map
        (fun ref => (⟨⟨ref⟩⟩ : ReleaseObject))).map dumpReleaseObject)) =
      canonical quotedWide (.array ((orderedRefs refs).map fun ref =>
        .object [(str "absent", .bool true), (str "object", refValue ref)])) := by
    simp only [canonical, canonicalElements_eq, List.map_map]
    have each : ((canonical quotedWide ∘ dumpReleaseObject) ∘ fun ref => ⟨⟨ref⟩⟩) =
        canonical quotedWide ∘ fun ref => .object [(str "absent", .bool true),
          (str "object", refValue ref)] := funext (fun ref => (canonical_objectValue ref).symm)
    rw [← Function.comp_assoc, each]
  simp only [dumpRelease, releaseValue, releaseMembers, canonical.eq_def quotedWide (.object _),
    canonicalMembers, objects, written]
  rfl

theorem readReleaseEvidence_value (lawful : p.Lawful) (grammar : Opaque p reservation.storeIdentity)
    (owner : PlainRef reservation.ownerKey) (positive : 0 < reservation.reservedBytes)
    (bigint : reservation.reservedBytes < 2 ^ 63) (few : refs.length ≤ 32)
    (plain : ∀ ref ∈ refs, PlainRef ref) (distinct : refs.Nodup) :
    ∃ t, p.timeText t = toChar at_ ∧ readReleaseEvidence p
      (releaseValue id systemId reservation (orderedRefs refs) at_) =
      .ok ⟨id, systemId, ⟨reservation.storeIdentity⟩, ⟨reservation.ownerKey⟩,
        reservation.reservedBytes, (orderedRefs refs).map (fun ref => ⟨⟨ref⟩⟩), t⟩ := by
  obtain ⟨t, read, written⟩ := readUtc_toChar lawful at_
  refine ⟨t, written, ?_⟩
  have same : (orderedRefs refs).Perm refs := List.perm_insertionSort _ refs
  have field := @release_distinct id systemId reservation refs at_
  have members : closed releaseNames (releaseValue id systemId reservation (orderedRefs refs) at_) =
      .ok (releaseMembers id systemId reservation (orderedRefs refs) at_) :=
    closed_object (by simp [releaseNames, releaseMembers])
  have objects : readArray (readReleaseObject p) (.array ((orderedRefs refs).map fun ref =>
      .object [(str "absent", .bool true), (str "object", refValue ref)])) =
      .ok ((orderedRefs refs).map fun ref => ⟨⟨ref⟩⟩) :=
    readAll_map (fun ref mem =>
      readReleaseObject_value ((plain ref (same.mem_iff.mp mem)).grammar lawful))
  have bytes : readPositive (.int reservation.reservedBytes) = .ok reservation.reservedBytes := by
    simp only [readPositive, positive, if_true]
  have size : sizeBounded (dumpRelease p ⟨id, systemId, ⟨reservation.storeIdentity⟩,
      ⟨reservation.ownerKey⟩, reservation.reservedBytes,
      (orderedRefs refs).map (fun ref => ⟨⟨ref⟩⟩), t⟩) = .ok () := by
    have fits := @release_size id systemId reservation refs at_ grammar.1 owner positive bigint few
      plain
    rw [sizeBounded, canonicalJson] at fits ⊢
    rw [canonical_dumpRelease written]
    exact fits
  have schema := (@defaulted_of_mem Unit _ "schema" _ field (by simp [releaseMembers]) ()
    (readLiteral "external-boot-release-evidence-v1")).trans (readLiteral_self _)
  have activation := (@required_of_mem _ _ "activation_id" _ field (by simp [releaseMembers])
    (readUuid p)).trans (readUuid_text lawful id)
  have system := (@required_of_mem _ _ "system_id" _ field (by simp [releaseMembers])
    (readUuid p)).trans (readUuid_text lawful systemId)
  have store := (@required_of_mem _ _ "store_identity" _ field (by simp [releaseMembers])
    (readRef p)).trans (readRef_of_grammar grammar)
  have holder := (@required_of_mem _ _ "owner_key" _ field (by simp [releaseMembers])
    (readRef p)).trans (readRef_of_grammar (owner.grammar lawful))
  have amount := (@required_of_mem _ _ "reserved_bytes" _ field (by simp [releaseMembers])
    readPositive).trans bytes
  have complete := @defaulted_of_mem Unit _ "enumeration_complete" (.bool true) field
    (by simp [releaseMembers]) () readTrue
  have listed := (@required_of_mem _ _ "objects" _ field (by simp [releaseMembers])
    (readArray (readReleaseObject p))).trans objects
  have verified := (@required_of_mem _ _ "verified_at" _ field (by simp [releaseMembers])
    (readUtc p)).trans read
  simp only [readReleaseEvidence, members, schema, activation, system, store, holder, amount,
    complete, readTrue, listed, verified, canonicalObjects_releaseObjects plain distinct, size, bind,
    Except.bind, pure, Except.pure]

end Release

end Evidence

end Kdive.ExternalBoot
