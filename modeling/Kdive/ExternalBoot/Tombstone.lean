import Kdive.ExternalBoot.Settlement

/-!
The rows a settlement leaves, read by Python. The activation's row is always read; the tombstone of
its reservation is read when the store's identity happens to be a reference.
-/
namespace Kdive.ExternalBoot
open JsonText CanonicalJson

attribute [local instance] UuidText.neZero

section Rows

variable {Time : Type} {p : Platform Time} {α β : Type}

theorem checked_bind {x : Checked α} {f : α → Checked β} {result : β}
    (read : (x >>= f) = .ok result) : ∃ a, x = .ok a ∧ f a = .ok result := by
  cases x with
  | error e => cases read
  | ok a => exact ⟨a, rfl, read⟩

theorem closed_ok {names : List Str} {v : Value} {members : List (Str × Value)}
    (read : closed names v = .ok members) : v = .object members := by
  cases v with
  | object inside =>
    dsimp only [closed] at read
    split_ifs at read
    rw [Except.ok.inj read]
  | _ => cases read

theorem required_ok {members : List (Str × Value)} {name : String} {read : Value → Checked α}
    {a : α} (found : required members name read = .ok a) :
    ∃ v, lookup members (str name) = some v ∧ read v = .ok a := by
  unfold required at found
  cases inside : lookup members (str name) with
  | none =>
    rw [inside] at found
    cases found
  | some v =>
    rw [inside] at found
    exact ⟨v, rfl, found⟩

theorem readOptional_ok {read : Value → Checked α} {v : Value} {a : α}
    (found : readOptional read v = .ok (some a)) : read v = .ok a := by
  have given : ∀ w : Value, (some <$> read w : Checked (Option α)) = .ok (some a) →
      read w = .ok a := by
    intro w mapped
    cases inner : read w with
    | error e =>
      rw [inner] at mapped
      cases mapped
    | ok b =>
      rw [inner] at mapped
      cases mapped
      rfl
  cases v with
  | null => cases found
  | _ => exact given _ found

theorem defaulted_ok {members : List (Str × Value)} {name : String}
    {read : Value → Checked (Option α)} {a : α}
    (found : defaulted members name none read = .ok (some a)) :
    ∃ v, lookup members (str name) = some v ∧ read v = .ok (some a) := by
  unfold defaulted at found
  cases inside : lookup members (str name) with
  | none =>
    rw [inside] at found
    cases found
  | some v =>
    rw [inside] at found
    exact ⟨v, rfl, found⟩

theorem follow_readRef {v : Value} {r : OpaqueProviderRef} (read : readRef p v = .ok r) :
    follow ["ref"] v = some (.text r.ref) := by
  unfold readRef at read
  obtain ⟨members, isClosed, read⟩ := checked_bind read
  obtain ⟨ref, named, read⟩ := checked_bind read
  obtain ⟨text, grammar, done⟩ := checked_bind read
  obtain rfl := Except.ok.inj done
  obtain ⟨w, inside, isText⟩ := required_ok named
  obtain rfl := closed_ok isClosed
  cases w with
  | text s =>
    dsimp only [readText] at isText
    split_ifs at isText
    obtain rfl := Except.ok.inj isText
    obtain rfl := opaqueRefText_eq grammar
    simp only [follow, inside, Option.bind_some]
  | _ => cases isText

theorem pathText_member {members : List (Str × Value)} {name : String} {v : Value}
    {rest : List String} {s : Str} (inside : lookup members (str name) = some v)
    (later : follow rest v = some (.text s)) :
    follow (name :: rest) (.object members) = some (.text s) := by
  simp only [follow, inside, Option.bind_some, later]

theorem pathText_of_follow {path : List String} {v : Value} {s : Str}
    (found : follow path v = some (.text s)) : pathText p path v = some s := by
  simp only [pathText, found]

theorem readArtifacts_paths {v : Value} {a : MaterializedArtifacts}
    (read : readArtifacts p v = .ok a) :
    follow ["kernel", "ref"] v = some (.text a.kernel.ref) ∧
    follow ["modules", "ref"] v = some (.text a.modules.ref) ∧
    (∀ r ∈ a.initrd, follow ["initrd", "ref"] v = some (.text r.ref)) ∧
    ∀ r ∈ a.debuginfo, follow ["debuginfo", "ref"] v = some (.text r.ref) := by
  unfold readArtifacts at read
  obtain ⟨members, isClosed, read⟩ := checked_bind read
  obtain ⟨kernel, kernelRead, read⟩ := checked_bind read
  obtain ⟨modules, modulesRead, read⟩ := checked_bind read
  obtain ⟨initrd, initrdRead, read⟩ := checked_bind read
  obtain ⟨debuginfo, debuginfoRead, done⟩ := checked_bind read
  obtain rfl := Except.ok.inj done
  obtain rfl := closed_ok isClosed
  refine ⟨?_, ?_, ?_, ?_⟩
  · obtain ⟨w, inside, ref⟩ := required_ok kernelRead
    exact pathText_member inside (follow_readRef ref)
  · obtain ⟨w, inside, ref⟩ := required_ok modulesRead
    exact pathText_member inside (follow_readRef ref)
  · intro r present
    dsimp only at present
    obtain ⟨w, inside, ref⟩ := required_ok initrdRead
    rw [Option.mem_def.mp present] at ref
    exact pathText_member inside (follow_readRef (readOptional_ok ref))
  · intro r present
    dsimp only at present
    rw [Option.mem_def.mp present] at debuginfoRead
    obtain ⟨w, inside, ref⟩ := defaulted_ok debuginfoRead
    exact pathText_member inside (follow_readRef (readOptional_ok ref))

theorem readMaterialization_artifacts {v : Value} {m : ExternalBootMaterialization}
    (read : readMaterialization p v = .ok m) :
    ∃ w members, v = .object members ∧ lookup members (str "artifacts") = some w ∧
      readArtifacts p w = .ok m.artifacts := by
  unfold readMaterialization at read
  obtain ⟨members, isClosed, read⟩ := checked_bind read
  iterate 12 obtain ⟨_, -, read⟩ := checked_bind read
  obtain ⟨artifacts, artifactsRead, read⟩ := checked_bind read
  obtain ⟨_, -, read⟩ := checked_bind read
  obtain ⟨_, -, done⟩ := checked_bind read
  obtain rfl := Except.ok.inj done
  obtain ⟨w, inside, refs⟩ := required_ok artifactsRead
  exact ⟨w, members, closed_ok isClosed, inside, refs⟩

theorem readRecoveryPoint_path {v : Value} {r : RecoveryPoint}
    (read : readRecoveryPoint p v = .ok r) :
    follow ["recovery_ref", "ref"] v = some (.text r.recoveryRef.ref) := by
  unfold readRecoveryPoint at read
  obtain ⟨members, isClosed, read⟩ := checked_bind read
  iterate 4 obtain ⟨_, -, read⟩ := checked_bind read
  obtain ⟨ref, refRead, read⟩ := checked_bind read
  obtain ⟨_, -, read⟩ := checked_bind read
  obtain ⟨_, -, done⟩ := checked_bind read
  obtain rfl := Except.ok.inj done
  obtain rfl := closed_ok isClosed
  obtain ⟨w, inside, text⟩ := required_ok refRead
  exact pathText_member inside (follow_readRef text)

theorem readPreRecovery_path {v : Value} {e : PreRecoveryEvidence Time}
    (read : readPreRecovery p v = .ok e) :
    follow ["recovery_object", "ref"] v = some (.text e.recoveryObject.ref) := by
  unfold readPreRecovery at read
  obtain ⟨members, isClosed, read⟩ := checked_bind read
  iterate 5 obtain ⟨_, -, read⟩ := checked_bind read
  obtain ⟨object, objectRead, read⟩ := checked_bind read
  obtain ⟨_, -, read⟩ := checked_bind read
  obtain ⟨_, -, read⟩ := checked_bind read
  obtain ⟨_, -, done⟩ := checked_bind read
  obtain rfl := Except.ok.inj done
  obtain rfl := closed_ok isClosed
  obtain ⟨w, inside, text⟩ := required_ok objectRead
  exact pathText_member inside (follow_readRef text)

theorem readColumn_some {read : Value → Checked α} {column : Option Value} {a : α}
    (found : readColumn read column = .ok (some a)) : ∃ v, column = some v ∧ read v = .ok a := by
  cases column with
  | none => cases found
  | some v =>
    refine ⟨v, rfl, ?_⟩
    dsimp only [readColumn] at found
    cases inner : read v with
    | error e =>
      rw [inner] at found
      cases found
    | ok b =>
      rw [inner] at found
      cases found
      rfl

theorem readActivation_ok {id : Uuid} {row : ActivationRow} {a : ExternalBootActivation Time}
    (read : readActivation p id row = .ok a) :
    (isDigest row.planIdentity = true ∧ 0 < row.authorityGeneration) ∧
    readColumn (readMaterialization p) row.materialization = .ok a.materialization ∧
    readColumn (readRecoveryPoint p) row.recoveryPoint = .ok a.recoveryPoint ∧
    readColumn (readPreRecovery p) row.preRecoveryEvidence = .ok a.preRecoveryEvidence ∧
    (a.id = id ∧ a.systemId = row.systemId ∧ a.runId = row.runId ∧
      a.planIdentity = row.planIdentity) ∧
    rowInvariants p a = .ok () := by
  unfold readActivation at read
  split_ifs at read with refused
  · cases read
  · obtain ⟨m, readM, read⟩ := checked_bind read
    obtain ⟨r, readR, read⟩ := checked_bind read
    obtain ⟨e, readE, read⟩ := checked_bind read
    obtain ⟨t, -, read⟩ := checked_bind read
    obtain ⟨d, -, read⟩ := checked_bind read
    obtain ⟨c, -, read⟩ := checked_bind read
    obtain ⟨_, rules, done⟩ := checked_bind read
    obtain rfl := Except.ok.inj done
    simp only [not_or, not_not, Int.not_le] at refused
    exact ⟨refused, readM, readR, readE, ⟨rfl, rfl, rfl, rfl⟩, rules⟩

def objectReferences (a : ExternalBootActivation Time) : List OpaqueProviderRef :=
  (a.materialization.elim [] fun m => [m.artifacts.kernel, m.artifacts.modules] ++
    m.artifacts.initrd.toList ++ m.artifacts.debuginfo.toList) ++
    (a.recoveryPoint.map (·.recoveryRef)).toList ++
    (a.preRecoveryEvidence.map (·.recoveryObject)).toList

theorem objectReferences_known {id : Uuid} {row : ActivationRow}
    {a : ExternalBootActivation Time} (read : readActivation p id row = .ok a) :
    ∀ r ∈ objectReferences a, r.ref ∈ knownRefs p row := by
  obtain ⟨-, readM, readR, readE, -, -⟩ := readActivation_ok read
  intro r mem
  simp only [objectReferences, List.mem_append, Option.mem_toList, Option.map_eq_some_iff] at mem
  rcases mem with (artifact | ⟨point, found, rfl⟩) | ⟨evidence, found, rfl⟩
  · cases present : a.materialization with
    | none => simp [present] at artifact
    | some m =>
      rw [present] at readM artifact
      obtain ⟨v, column, parsed⟩ := readColumn_some readM
      obtain ⟨w, members, rfl, inside, artifacts⟩ := readMaterialization_artifacts parsed
      obtain ⟨kernel, modules, initrd, debuginfo⟩ := readArtifacts_paths artifacts
      have path : ∀ {name : String} {s : Str}, follow [name, "ref"] w = some (.text s) →
          row.materialization.bind (pathText p ["artifacts", name, "ref"]) = some s := by
        intro name s found
        rw [column]
        exact pathText_of_follow (pathText_member inside found)
      simp only [Option.elim_some, List.mem_append, List.mem_cons, List.not_mem_nil, or_false,
        Option.mem_toList] at artifact
      rcases artifact with ((rfl | rfl) | found) | found
      · simp [knownRefs, path kernel]
      · simp [knownRefs, path modules]
      · simp [knownRefs, path (initrd r found)]
      · simp [knownRefs, path (debuginfo r found)]
  · rw [found] at readR
    obtain ⟨v, column, parsed⟩ := readColumn_some readR
    have path : row.recoveryPoint.bind (pathText p ["recovery_ref", "ref"]) =
        some point.recoveryRef.ref := by
      rw [column]
      exact pathText_of_follow (readRecoveryPoint_path parsed)
    simp [knownRefs, path]
  · rw [found] at readE
    obtain ⟨v, column, parsed⟩ := readColumn_some readE
    have path : row.preRecoveryEvidence.bind (pathText p ["recovery_object", "ref"]) =
        some evidence.recoveryObject.ref := by
      rw [column]
      exact pathText_of_follow (readPreRecovery_path parsed)
    simp [knownRefs, path]

end Rows

section Settling

variable {Time : Type} {p : Platform Time} {db db' : Database} {clock : Readings}
  {args : SettleArguments}

theorem settleGuards_error {now : Instant} {id : Uuid} {activation : ActivationRow}
    {result : SettleResult} (refused : settleGuards p db now id activation = .error result) :
    result ≠ .applied := by
  rintro rfl
  unfold settleGuards at refused
  dsimp only at refused
  repeat' first | cases refused | split at refused

theorem settleGuards_ok {now : Instant} {id : Uuid} {activation : ActivationRow}
    {absence : AuthorityAbsence} {reservation : ReservationRow}
    (passed : settleGuards p db now id activation = .ok (absence, reservation)) :
    activation.state = .preparing ∧ db.reservations id = some reservation ∧
      ∀ ref ∈ knownRefs p activation, ref ∈ absence.absentObjects := by
  unfold settleGuards at passed
  dsimp only at passed
  split_ifs at passed with _ _ preparing
  split at passed
  · cases passed
  · cases passed
  · split_ifs at passed with _ _ _ unproven
    · split at passed <;> cases passed
    split at passed
    · cases passed
    · rename_i found
      obtain ⟨rfl, rfl⟩ := Prod.mk.inj (Except.ok.inj passed)
      refine ⟨not_not.mp preparing, found, ?_⟩
      simpa using unproven

theorem settle_unchanged {result : SettleResult}
    (settled : settleStrandedExternalBootActivation p db clock args = .ok (result, db'))
    (other : result ≠ .applied) : db' = db := by
  unfold settleStrandedExternalBootActivation at settled
  split_ifs at settled
  split at settled
  · exact (Prod.mk.inj (Except.ok.inj settled)).2.symm
  · split at settled
    · exact (Prod.mk.inj (Except.ok.inj settled)).2.symm
    · rename_i absence reservation _
      cases written : settleWrites p db clock args _ absence reservation with
      | error fault =>
        rw [written] at settled
        cases settled
      | ok after =>
        rw [written] at settled
        obtain ⟨rfl, -⟩ := Prod.mk.inj (Except.ok.inj settled)
        exact absurd rfl other

theorem settle_applied
    (settled : settleStrandedExternalBootActivation p db clock args = .ok (.applied, db')) :
    ∃ activation absence reservation,
      db.activations args.activationId = some activation ∧
      activation.state = .preparing ∧ db.reservations args.activationId = some reservation ∧
      (∀ ref ∈ knownRefs p activation, ref ∈ absence.absentObjects) ∧
      db'.releases args.activationId = some (releasedRow p args.activationId
        (settledRelease args.activationId clock activation absence reservation) reservation) ∧
      db'.activations args.activationId = some (abandonedRow p args.activationId clock activation
        absence (settledRelease args.activationId clock activation absence reservation)) ∧
      activationChecks p args.activationId (abandonedRow p args.activationId clock activation
        absence (settledRelease args.activationId clock activation absence reservation)) = true := by
  unfold settleStrandedExternalBootActivation at settled
  split_ifs at settled
  split at settled
  · cases settled
  · rename_i activation found
    split at settled
    · rename_i result refused
      obtain ⟨rfl, -⟩ := Prod.mk.inj (Except.ok.inj settled)
      exact absurd rfl (settleGuards_error refused)
    · rename_i absence reservation passed
      obtain ⟨preparing, reserved, known⟩ := settleGuards_ok passed
      refine ⟨activation, absence, reservation, found, preparing, reserved, known, ?_⟩
      cases written : settleWrites p db clock args activation absence reservation with
      | error fault =>
        rw [written] at settled
        cases settled
      | ok after =>
        rw [written] at settled
        obtain ⟨-, rfl⟩ := Prod.mk.inj (Except.ok.inj settled)
        unfold settleWrites at written
        dsimp only at written
        split_ifs at written with _ violated
        obtain rfl := Except.ok.inj written
        simp only [not_or, Bool.not_eq_false] at violated
        exact ⟨Function.update_self .., Function.update_self .., violated.2⟩

theorem isDigest_sha256 (lawful : p.Lawful) (bytes : List Nat) :
    isDigest (str "sha256:" ++ p.sha256 bytes) = true := by
  have length : (str "sha256:").length = 7 := by decide
  have front : (str "sha256:" ++ p.sha256 bytes).take 7 = str "sha256:" :=
    List.take_left' length
  have back : (str "sha256:" ++ p.sha256 bytes).drop 7 = p.sha256 bytes := List.drop_left' length
  have hex : (p.sha256 bytes).all isLowerHex = true := by
    rw [List.all_eq_true]
    intro c mem
    have lower : (48 ≤ c ∧ c ≤ 57) ∨ (97 ≤ c ∧ c ≤ 102) := lawful.sha256_lower bytes c mem
    simpa [isLowerHex] using lower
  simp only [isDigest, front, back, lawful.sha256_length, hex, decide_true, Bool.and_self]

/-- The constraint on cleanup evidence lets no activation be abandoned with a teardown. -/
theorem teardown_none {id : Uuid} {activation : ActivationRow} {absence : AuthorityAbsence}
    {release : Value} (checked : activationChecks p id
      (abandonedRow p id clock activation absence release) = true) :
    activation.teardownEvidence = none := by
  simp only [activationChecks, abandonedRow, Bool.and_eq_true] at checked
  have kept := checked.2
  simp [ordinaryHistoryStates] at kept
  exact kept.2

theorem AuthorityAbsence.plain (absence : AuthorityAbsence) :
    ∀ ref ∈ absence.absentObjects, PlainRef ref :=
  fun ref mem => plainRef_of_absentRef (absence.admissible ref mem)

theorem readActivation_abandoned (lawful : p.Lawful) {id : Uuid} {row : ActivationRow}
    {a : ExternalBootActivation Time} (read : readActivation p id row = .ok a)
    (undone : row.teardownEvidence = none) (absence : AuthorityAbsence) {release : Value}
    (digest : isDigest (releaseIdentity p release) = true) :
    ∃ after observed completed,
      readActivation p id (abandonedRow p id clock row absence release) = .ok after ∧
      after.state = .abandoned ∧ after.cleanupComplete = true ∧
      after.terminalEvidence = some ⟨id, row.systemId, .abandoned, absence.compositeState,
        (orderedRefs absence.absentObjects).map .mk, observed⟩ ∧
      after.cleanupEvidence = some ⟨id, row.systemId, some (releaseIdentity p release), .ordinary,
        none, completed⟩ := by
  obtain ⟨⟨plan, generation⟩, readM, readR, readE, ⟨sameId, sameSystem, sameRun, samePlan⟩, rules⟩ :=
    readActivation_ok read
  obtain ⟨observed, terminal⟩ := @readTerminal_value Time p id row.systemId absence.compositeState
    absence.absentObjects absence.recordedAt lawful absence.digest absence.bounded absence.plain
    absence.distinct
  obtain ⟨completed, cleanup⟩ := @readCleanup_value Time p id row.systemId
    (releaseIdentity p release) clock.verifiedAt lawful digest
  let after : ExternalBootActivation Time := ⟨id, row.systemId, row.runId, row.planIdentity,
    row.authorityGeneration, .abandoned, true, row.activationReadinessDeadline, a.materialization,
    a.recoveryPoint, a.preRecoveryEvidence,
    some ⟨id, row.systemId, .abandoned, absence.compositeState,
      (orderedRefs absence.absentObjects).map .mk, observed⟩, none,
    some ⟨id, row.systemId, some (releaseIdentity p release), .ordinary, none, completed⟩,
    row.currentAttemptId⟩
  refine ⟨after, observed, completed, ?_, rfl, rfl, rfl, rfl⟩
  have state : stateRequirements after = .ok () := by
    simp [stateRequirements, after, cleanupStates, unmaterializedStates, recoveryPointStates,
      attemptStates, expectedOutcome]
  have owned : recordedOwnership p after = .ok () := by
    have before : recordedOwnership p a = .ok () := by
      obtain ⟨_, -, rest⟩ := checked_bind rules
      obtain ⟨_, owned, -⟩ := checked_bind rest
      exact owned
    simp only [recordedOwnership, sameId, sameSystem, sameRun, samePlan] at before ⊢
    exact before
  have ended : endingOwnership p after = .ok () := by
    simp [endingOwnership, after, ordinaryHistoryStates]
  have accepted : rowInvariants p after = .ok () := by
    simp only [rowInvariants, state, owned, ended, bind, Except.bind]
  have guard : ¬ (¬ isDigest row.planIdentity = true ∨ row.authorityGeneration ≤ 0) := by
    simp only [plan, not_true_eq_false, false_or]
    omega
  have columns : readColumn (readTerminal p) (abandonedRow p id clock row absence
      release).terminalEvidence = .ok after.terminalEvidence ∧
      readColumn (readTeardown p) row.teardownEvidence = .ok after.teardownEvidence ∧
      readColumn (readCleanup p) (abandonedRow p id clock row absence
        release).cleanupEvidence = .ok after.cleanupEvidence := by
    simp only [abandonedRow, readColumn, terminal, cleanup, undone]
    exact ⟨rfl, rfl, rfl⟩
  have read' : readActivation p id (abandonedRow p id clock row absence release) = (do
      rowInvariants p after
      return after) := by
    unfold readActivation
    rw [columns.1, columns.2.2]
    simp only [abandonedRow, guard, if_false, readM, readR, readE, columns.2.1, bind, Except.bind]
    rfl
  rw [read', accepted]
  rfl

def CanonicalList (encoded : List Str) : Prop := encoded.Nodup ∧ encoded = sortTexts encoded

theorem canonicalList_of_ok {noun : String} {encoded : List Str}
    (passed : canonicalObjects noun encoded = .ok ()) : CanonicalList encoded := by
  unfold canonicalObjects at passed
  split_ifs at passed with repeated unsorted
  exact ⟨repeated, not_not.mp unsorted⟩

def Readable (p : Platform Time) (db : Database) (id : Uuid)
    (before : ExternalBootActivation Time) : Prop :=
  ∃ row after terminal cleanup released release,
    db.activations id = some row ∧ readActivation p id row = .ok after ∧
    db.releases id = some released ∧ readRelease p released = .ok release ∧
    (after.state = .abandoned ∧ after.cleanupComplete = true) ∧
    (after.terminalEvidence = some terminal ∧ terminal.outcome = .abandoned) ∧
    (after.cleanupEvidence = some cleanup ∧ cleanup.mode = .ordinary ∧
      cleanup.releaseIdentity = some released.releaseIdentity) ∧
    released.releaseIdentity = identity p releaseLabel (dumpRelease p release.releaseEvidence) ∧
    CanonicalList (encodedRefs terminal.objects) ∧
    CanonicalList (encodedReleaseObjects release.releaseEvidence.objects) ∧
    ∀ ref ∈ objectReferences before,
      ref ∈ terminal.objects ∧ ⟨ref⟩ ∈ release.releaseEvidence.objects

theorem readRelease_evidence {row : ReleaseRow} {release : ReservationRelease Time}
    (read : readRelease p row = .ok release) :
    readReleaseEvidence p row.releaseEvidence = .ok release.releaseEvidence := by
  unfold readRelease at read
  split_ifs at read
  · cases read
  · obtain ⟨evidence, parsed, read⟩ := checked_bind read
    obtain ⟨_, -, read⟩ := checked_bind read
    obtain ⟨_, -, done⟩ := checked_bind read
    obtain rfl := Except.ok.inj done
    exact parsed

theorem readReleaseEvidence_ok {id systemId : Uuid} {reservation : ReservationRow} {refs : List Str}
    {at_ : Instant} {e : ReleaseEvidence Time} (read : readReleaseEvidence p
      (releaseValue id systemId reservation (orderedRefs refs) at_) = .ok e) :
    Opaque p reservation.storeIdentity := by
  have field := @release_distinct id systemId reservation refs at_
  unfold readReleaseEvidence at read
  obtain ⟨members, isClosed, read⟩ := checked_bind read
  rw [releaseValue, closed_object (by simp [releaseNames, releaseMembers])] at isClosed
  obtain rfl := Except.ok.inj isClosed
  iterate 3 obtain ⟨_, -, read⟩ := checked_bind read
  obtain ⟨store, stored, -⟩ := checked_bind read
  rw [@required_of_mem _ _ "store_identity" (refValue reservation.storeIdentity) field
    (by simp [releaseMembers])] at stored
  exact (readRef_ok stored).2

theorem plain_ref_of_readable {before : ExternalBootActivation Time}
    {reservation : ReservationRow} (reserved : db.reservations args.activationId = some reservation)
    (settled : settleStrandedExternalBootActivation p db clock args = .ok (.applied, db'))
    (readable : Readable p db' args.activationId before) : Opaque p reservation.storeIdentity := by
  obtain ⟨activation, absence, found, -, -, same, -, left, -, -⟩ := settle_applied settled
  rw [reserved] at same
  obtain rfl := Option.some.inj same
  obtain ⟨_, _, _, _, released, release, -, -, there, read, -⟩ := readable
  rw [left] at there
  obtain rfl := Option.some.inj there
  exact readReleaseEvidence_ok (readRelease_evidence read)

theorem readRelease_released (lawful : p.Lawful) {id : Uuid} {reservation : ReservationRow}
    (grammar : Opaque p reservation.storeIdentity)
    (store : boundedText reservation.storeIdentity = true) (owner : PlainRef reservation.ownerKey)
    (positive : 0 < reservation.reservedBytes) (bigint : reservation.reservedBytes < 2 ^ 63)
    (activation : ActivationRow) (absence : AuthorityAbsence) :
    ∃ release, readRelease p (releasedRow p id
        (settledRelease id clock activation absence reservation) reservation) = .ok release ∧
      release.releaseEvidence.objects =
        (orderedRefs absence.absentObjects).map (fun ref => ⟨⟨ref⟩⟩) ∧
      releaseIdentity p (settledRelease id clock activation absence reservation) =
        identity p releaseLabel (dumpRelease p release.releaseEvidence) := by
  obtain ⟨t, written, evidence⟩ := @readReleaseEvidence_value Time p id activation.systemId
    reservation absence.absentObjects clock.verifiedAt lawful grammar owner positive bigint
    absence.bounded absence.plain absence.distinct
  let e : ReleaseEvidence Time := ⟨id, activation.systemId, ⟨reservation.storeIdentity⟩,
    ⟨reservation.ownerKey⟩, reservation.reservedBytes,
    (orderedRefs absence.absentObjects).map (fun ref => ⟨⟨ref⟩⟩), t⟩
  have hashed : releaseIdentity p (settledRelease id clock activation absence reservation) =
      identity p releaseLabel (dumpRelease p e) := by
    rw [releaseIdentity, identity, canonicalJson, canonicalAuthorityJson_eq,
      canonical_dumpRelease written]
    rfl
  let r : ReservationRelease Time := ⟨id, reservation.storeIdentity, reservation.ownerKey,
    reservation.reservedBytes,
    releaseIdentity p (settledRelease id clock activation absence reservation), e, none⟩
  have holder : boundedText reservation.ownerKey = true := by
    have short := owner.short
    have some_letter := List.length_pos_iff.mpr owner.nonempty
    simp only [boundedText, Bool.and_eq_true, decide_eq_true_eq]
    omega
  have digest : isDigest (releaseIdentity p
      (settledRelease id clock activation absence reservation)) = true := isDigest_sha256 lawful _
  have guard : ¬ (¬ boundedText reservation.storeIdentity = true ∨
      ¬ boundedText reservation.ownerKey = true ∨ reservation.reservedBytes ≤ 0 ∨
      ¬ isDigest (releaseIdentity p
        (settledRelease id clock activation absence reservation)) = true) := by
    simp only [store, holder, digest, not_true_eq_false, false_or, or_false]
    omega
  have matched : releaseMatchesRow p r = .ok () := by
    rw [releaseMatchesRow, if_neg (not_not.mpr hashed), if_neg]
    simp [r, e]
  refine ⟨r, ?_, rfl, hashed⟩
  have read : readRelease p (releasedRow p id
      (settledRelease id clock activation absence reservation) reservation) = (do
        releaseMatchesRow p r
        return r) := by
    unfold readRelease
    simp only [releasedRow, guard, if_false, readColumn, bind, Except.bind]
    rw [settledRelease, evidence]
    rfl
  rw [read, matched]
  rfl

/-- Every result but one leaves the rows alone. An applied settlement leaves rows that Python reads
if and only if the store is called by a reference. -/
theorem settlement_readable_iff (lawful : p.Lawful) (db : Database) (clock : Readings)
    (args : SettleArguments) :
    (∀ result db', settleStrandedExternalBootActivation p db clock args = .ok (result, db') →
      result ≠ .applied → db' = db) ∧
    ∀ db' row before (geometry : Geometry p) seed,
      settleStrandedExternalBootActivation p db clock args = .ok (.applied, db') →
      db.activations args.activationId = some row →
      readActivation p args.activationId row = .ok before →
      db.reservations args.activationId = some (reservationOf p geometry seed) →
      (Readable p db' args.activationId before ↔ Opaque p geometry.storeIdentity) := by
  refine ⟨fun result db' settled other => settle_unchanged settled other, ?_⟩
  intro db' row before geometry seed settled found read reserved
  refine ⟨plain_ref_of_readable reserved settled, ?_⟩
  intro grammar
  obtain ⟨activation, absence, reservation, found', -, reserved', known, left, ended, checked⟩ :=
    settle_applied settled
  rw [found] at found'
  obtain rfl := Option.some.inj found'
  rw [reserved] at reserved'
  obtain rfl := Option.some.inj reserved'
  have accepted := geometry.accepted
  simp only [inventoryAccepts, Bool.and_eq_true, decide_eq_true_eq] at accepted
  have store : boundedText geometry.storeIdentity = true := by
    simp only [boundedText, accepted.1, decide_true, Bool.and_self]
  obtain ⟨release, released, objects, hashed⟩ := @readRelease_released Time p clock lawful
    args.activationId (reservationOf p geometry seed) grammar store (plainRef_ownerKey lawful _)
    geometry.positive geometry.bigint row absence
  obtain ⟨after, observed, completed, readAfter, state, complete, terminal, cleanup⟩ :=
    @readActivation_abandoned Time p clock lawful args.activationId row before read
      (teardown_none checked) absence _ (isDigest_sha256 lawful _)
  have sorted := @canonicalObjects_releaseObjects absence.absentObjects absence.plain
    absence.distinct
  rw [← objects] at sorted
  refine ⟨_, after, _, _, _, release, ended, readAfter, left, released, ⟨state, complete⟩,
    ⟨terminal, rfl⟩, ⟨cleanup, rfl, rfl⟩, hashed,
    canonicalList_of_ok (canonicalObjects_refs absence.plain absence.distinct),
    canonicalList_of_ok sorted, ?_⟩
  intro ref recorded
  have listed : ref.ref ∈ orderedRefs absence.absentObjects :=
    (List.perm_insertionSort _ _).mem_iff.mpr
      (known ref.ref (objectReferences_known read ref recorded))
  rw [objects]
  exact ⟨List.mem_map.mpr ⟨ref.ref, listed, rfl⟩, List.mem_map.mpr ⟨ref.ref, listed, rfl⟩⟩

end Settling

section Sample

def samplePlan : Str := str "sha256:" ++ List.replicate 64 97

def sampleSeed : Str := UuidText.text 2 ++ [47] ++ UuidText.text 3 ++ [47] ++ samplePlan

def sampleSha256 (released : String) (bytes : List Nat) : Str :=
  if bytes = sampleSeed then str "c50e57a5e40636c2c0ae533778c0d0e78178056fd329e2d520f200f10172c875"
  else if bytes.take 6 = str "kdive-" then str released
  else str "bc0aa3723e2ed5b0db4a9cb8ea9723019f51e7366235b623a2dc639252da6cb0"

def sampleUnicode : UuidText.Unicode := ⟨fun _ => false, fun _ => none⟩

def samplePlatform (released : String) : Platform Str where
  nfc := id
  printable c := decide (32 ≤ c) && decide (c ≤ 126)
  space c := decide (c = 32) || (decide (9 ≤ c) && decide (c ≤ 13))
  sha256 := sampleSha256 released
  jsonbText
    | .int n => intText n
    | v => canonicalAuthorityJson v
  columnSize _ := 600
  readTime s := if s.length = 20 ∧ s.getLast? = some 90 then some s else none
  utcOffset _ := some 0
  timeText := id
  readUuid := UuidText.uuid sampleUnicode

def isSha256 (digest : Str) : Bool := decide (digest.length = 64) && digest.all isLowerHex

theorem samplePlatform_lawful {released : String} (hex : isSha256 (str released) = true) :
    (samplePlatform released).Lawful := by
  have digests : ∀ bytes, isSha256 (sampleSha256 released bytes) = true := by
    intro bytes
    unfold sampleSha256
    split_ifs
    · decide +kernel
    · exact hex
    · decide +kernel
  constructor
  · intro s _
    rfl
  · intro c low high
    simp [samplePlatform, low, high]
  · intro bytes
    have digest := digests bytes
    simp only [isSha256, Bool.and_eq_true, decide_eq_true_eq] at digest
    exact digest.1
  · intro bytes c mem
    have digest := digests bytes
    simp only [isSha256, Bool.and_eq_true, List.all_eq_true] at digest
    have lower := digest.2 c mem
    simpa [isLowerHex, UuidText.Lower] using lower
  · intro u
    have reads : (samplePlatform released).readUuid = UuidText.uuid sampleUnicode := rfl
    rw [reads, UuidText.uuid_text]
  · intro i
    refine ⟨toChar i, ?_, rfl, rfl⟩
    have last : (toChar i).getLast? = some 90 := List.getLast?_concat
    have reads : ∀ s, (samplePlatform released).readTime s =
        if s.length = 20 ∧ s.getLast? = some 90 then some s else none := fun _ => rfl
    rw [reads, if_pos ⟨length_toChar i, last⟩]

def sampleRecorded : Instant := ⟨63929476800000000, by decide⟩

def sampleClock : Readings :=
  let now : Instant := ⟨63929478600000000, by decide⟩
  ⟨now, now, now, now, now⟩

def sampleActivation : ActivationRow where
  systemId := 2
  runId := 3
  planIdentity := samplePlan
  authorityGeneration := 1
  state := .preparing
  cleanupComplete := false
  activationReadinessDeadline := none
  materialization := none
  recoveryPoint := none
  preRecoveryEvidence := some (.object [
    (str "schema", .text (str "external-boot-pre-recovery-evidence-v1")),
    (str "activation_id", .text (UuidText.text 1)), (str "system_id", .text (UuidText.text 2)),
    (str "run_id", .text (UuidText.text 3)), (str "plan_identity", .text samplePlan),
    (str "recovery_object", refValue (str "remote-external-boot/a1")),
    (str "source_composite_state", .text samplePlan),
    (str "observed_at", .text (toChar sampleRecorded))])
  terminalEvidence := none
  teardownEvidence := none
  cleanupEvidence := none
  currentAttemptId := none

def sampleAbsence : AuthorityAbsence where
  authorityInstance := str "east"
  domainName := str "kdive-2"
  journal := none
  compositeState := samplePlan
  absentObjects := [str "remote-external-boot/a1"]
  recordedAt := sampleRecorded
  digest := by decide +kernel
  bounded := by decide
  admissible := by decide +kernel
  distinct := by simp

def sampleDatabase (reservation : ReservationRow) : Database where
  activations id := if id = 1 then some sampleActivation else none
  systems _ := ⟨.ready, some (str "kdive-2")⟩
  settlements id :=
    if id = 1 then some ⟨some sampleAbsence, some ⟨str "kdive-2", sampleRecorded⟩, none, none, none⟩
    else none
  reservations id := if id = 1 then some reservation else none
  releases _ := none
  journalHeads _ _ := none
  ownership _ := false
  authorities := []
  jobs := []
  obligations := []
  audit := []

def sampleArguments : SettleArguments :=
  ⟨1, str "operator", none, str "operator-cli", str " stranded "⟩

def storeDigest : String := "6e7148856f655209b4bb20e83a087112f1e1f99ca85614cc0383130a65674994"

def nfsDigest : String := "88047bdb44c99518347e044aa0b58aeacc7acf389150fa4963b70219a16b9ba6"

def storeGeometry : Geometry (samplePlatform storeDigest) :=
  ⟨str "recovery/a", 4096, by decide +kernel, by decide, by decide⟩

def nfsGeometry : Geometry (samplePlatform nfsDigest) :=
  ⟨str "nfs:recovery", 4096, by decide +kernel, by decide, by decide⟩

theorem exists_of_toOption {α ε : Type} {x : Except ε α} {β : Type} {f : α → β} {b : β}
    (mapped : x.toOption.map f = some b) : ∃ a, x = .ok a ∧ f a = b := by
  cases x with
  | error e => simp [Except.toOption] at mapped
  | ok a => exact ⟨a, rfl, by simpa [Except.toOption] using mapped⟩

theorem storeDatabase_applied :
    (settleStrandedExternalBootActivation (samplePlatform storeDigest)
      (sampleDatabase (reservationOf _ storeGeometry sampleSeed)) sampleClock
      sampleArguments).toOption.map Prod.fst = some .applied := by
  decide +kernel

theorem nfsDatabase_applied :
    (settleStrandedExternalBootActivation (samplePlatform nfsDigest)
      (sampleDatabase (reservationOf _ nfsGeometry sampleSeed)) sampleClock
      sampleArguments).toOption.map Prod.fst = some .applied := by
  decide +kernel

theorem sampleActivation_read : ∀ released ∈ [storeDigest, nfsDigest],
    (readActivation (samplePlatform released) 1 sampleActivation).toOption.map
      (fun a => (objectReferences a).map (·.ref)) = some [str "remote-external-boot/a1"] := by
  decide +kernel

/-- A store with a plain name: the evidence lists the recovery object and is read. -/
theorem plain_store_readable : ∃ db' before,
    settleStrandedExternalBootActivation (samplePlatform storeDigest)
      (sampleDatabase (reservationOf _ storeGeometry sampleSeed)) sampleClock sampleArguments =
      .ok (.applied, db') ∧
    (objectReferences before).map (·.ref) = [str "remote-external-boot/a1"] ∧
    Readable (samplePlatform storeDigest) db' 1 before := by
  obtain ⟨⟨result, db'⟩, settled, rfl⟩ := exists_of_toOption storeDatabase_applied
  obtain ⟨before, read, recorded⟩ := exists_of_toOption
    (sampleActivation_read storeDigest (by simp))
  have lawful : (samplePlatform storeDigest).Lawful := samplePlatform_lawful (by decide +kernel)
  refine ⟨db', before, settled, recorded, ?_⟩
  exact ((settlement_readable_iff lawful _ _ _).2 db' sampleActivation before storeGeometry
    sampleSeed settled rfl read rfl).2 (by decide +kernel)

/-- A store that is called by a host: the evidence is written, and Python refuses it. -/
theorem nfs_store_unreadable : inventoryAccepts (samplePlatform nfsDigest) (str "nfs:recovery") ∧
    ∃ db' before,
      settleStrandedExternalBootActivation (samplePlatform nfsDigest)
        (sampleDatabase (reservationOf _ nfsGeometry sampleSeed)) sampleClock sampleArguments =
        .ok (.applied, db') ∧
      readActivation (samplePlatform nfsDigest) 1 sampleActivation = .ok before ∧
      ¬ Readable (samplePlatform nfsDigest) db' 1 before := by
  refine ⟨by decide +kernel, ?_⟩
  obtain ⟨⟨result, db'⟩, settled, rfl⟩ := exists_of_toOption nfsDatabase_applied
  obtain ⟨before, read, -⟩ := exists_of_toOption
    (sampleActivation_read nfsDigest (by simp))
  have lawful : (samplePlatform nfsDigest).Lawful := samplePlatform_lawful (by decide +kernel)
  refine ⟨db', before, settled, read, ?_⟩
  intro readable
  have grammar : Opaque (samplePlatform nfsDigest) nfsGeometry.storeIdentity :=
    plain_ref_of_readable rfl settled readable
  exact absurd grammar (by decide +kernel)

end Sample

end Kdive.ExternalBoot
