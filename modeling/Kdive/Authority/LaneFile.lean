import Kdive.Authority.Journal

/-!
`FileAuthorityJournal` on one lane. The file is read and validated once; after that the journal
keeps the validation state beside the records and changes both with every record it appends. The
file is touched only where its identity is the one the journal saw last.
-/
namespace Kdive.Authority

abbrev Bytes := List UInt8

def newline : UInt8 := 10

def maxMessageBytes : Nat := 1048576

/-- The encoding of records: `canonical_record_bytes`, `model_validate_json` and `record_digest`,
with the records that the model of a record accepts. -/
structure Codec where
  encode : JournalRecord → Bytes
  decode : Bytes → Option JournalRecord
  digest : JournalRecord → Digest
  Valid : JournalRecord → Prop
  decode_encode : ∀ r, Valid r → decode (encode r) = some r
  plain : ∀ r, Valid r → newline ∉ encode r
  filled : ∀ r, Valid r → encode r ≠ []
  bounded : ∀ r, Valid r → (encode r).length ≤ maxMessageBytes

section Files

structure FileIdentity where
  device : Nat
  inode : Nat
  size : Nat
  mtimeNs : Int
  ctimeNs : Int
  deriving DecidableEq

structure LaneFile where
  bytes : Bytes
  device : Nat
  inode : Nat
  mtimeNs : Int
  ctimeNs : Int

def LaneFile.identity (f : LaneFile) : FileIdentity :=
  ⟨f.device, f.inode, f.bytes.length, f.mtimeNs, f.ctimeNs⟩

structure Stamp where
  device : Nat
  inode : Nat
  mtimeNs : Int
  ctimeNs : Int

def Stamp.created (stamp : Stamp) : LaneFile :=
  ⟨[], stamp.device, stamp.inode, stamp.mtimeNs, stamp.ctimeNs⟩

def LaneFile.rewritten (f : LaneFile) (stamp : Stamp) (bytes : Bytes) : LaneFile :=
  { f with bytes := bytes, mtimeNs := stamp.mtimeNs, ctimeNs := stamp.ctimeNs }

def LaneFile.pread (f : LaneFile) (length offset : Nat) : Bytes :=
  (f.bytes.drop offset).take length

end Files

section Reading

def readline : Nat → Bytes → Bytes × Bytes
  | 0, bytes => ([], bytes)
  | _ + 1, [] => ([], [])
  | limit + 1, b :: rest =>
    if b = newline then ([b], rest)
    else
      let (line, rest) := readline limit rest
      (b :: line, rest)

variable (codec : Codec) (maxBytes : Nat)

def readRecord (line : Bytes) : Except JournalError JournalRecord :=
  if line.getLast? ≠ some newline then .error ⟨"authority journal has a partial final record"⟩
  else
    let payload := line.dropLast
    if payload = [] ∨ maxMessageBytes < payload.length then
      .error ⟨"authority journal record is empty or oversized"⟩
    else match codec.decode payload with
      | none => .error ⟨"validation error for JournalRecordV1"⟩
      | some r =>
        if codec.encode r ≠ payload then .error ⟨"authority journal record is not canonical JSON"⟩
        else .ok r

/-- The loop of `_load`; every line takes a byte at least, so the length of the file is fuel
enough. -/
def readFrom : Nat → Nat → ValidationState → List JournalRecord → Bytes →
    Except JournalError (List JournalRecord × ValidationState)
  | 0, _, state, records, _ => .ok (records, state)
  | fuel + 1, consumed, state, records, bytes =>
    let (line, rest) := readline (maxMessageBytes + 2) bytes
    if line = [] then .ok (records, state)
    else if maxBytes < consumed + line.length then
      .error ⟨"authority journal exceeds configured byte maximum"⟩
    else do
      let r ← readRecord codec line
      let next ← validateRecord codec.digest state r
      readFrom fuel (consumed + line.length) next (records ++ [r]) rest

def reloadBytes (bytes : Bytes) : Except JournalError (List JournalRecord × ValidationState) :=
  if maxBytes < bytes.length then .error ⟨"authority journal exceeds configured byte maximum"⟩
  else readFrom codec maxBytes bytes.length 0 {} [] bytes

def reload : Option LaneFile → Except JournalError (List JournalRecord × ValidationState)
  | none => .ok ([], {})
  | some f => reloadBytes codec maxBytes f.bytes

end Reading

section Operations

structure JournalCache where
  records : List JournalRecord
  state : ValidationState
  identity : Option FileIdentity
  tailOffset : Nat
  tailBytes : Bytes

structure Lane where
  file : Option LaneFile
  cache : Option JournalCache

variable (codec : Codec) (maxBytes : Nat)

def encodedLine (r : JournalRecord) : Bytes := codec.encode r ++ [newline]

def cacheOf (file : Option LaneFile) (records : List JournalRecord) (state : ValidationState) :
    JournalCache :=
  match file with
  | none => ⟨[], {}, none, 0, []⟩
  | some f =>
    let tail := (records.getLast?.map (encodedLine codec)).getD []
    ⟨records, state, some f.identity, f.bytes.length - tail.length, tail⟩

/-- `load`; past its deadline it raises and remembers what it did before. -/
def load (timedOut : Bool) (lane : Lane) : Except JournalError (List JournalRecord) × Lane :=
  if timedOut then (.error ⟨"authority journal validation deadline exceeded"⟩, lane)
  else match reload codec maxBytes lane.file with
    | .error e => (.error e, lane)
    | .ok (records, state) =>
      (.ok records, { lane with cache := some (cacheOf codec lane.file records state) })

inductive Fault where
  | beforeOpen | afterOpen
  deriving DecidableEq

def changedSince : JournalError := ⟨"authority journal changed since validation"⟩

def unchanged (cache : JournalCache) (created : Bool) (f : LaneFile) :
    Except JournalError Unit :=
  match cache.identity with
  | none => if created = false ∨ f.bytes.length ≠ 0 then .error changedSince else .ok ()
  | some identity =>
    if f.identity ≠ identity then .error changedSince
    else if cache.tailBytes ≠ [] ∧
        f.pread cache.tailBytes.length cache.tailOffset ≠ cache.tailBytes then
      .error ⟨"authority journal tail changed since validation"⟩
    else .ok ()

def appendCached (cache : JournalCache) (r : JournalRecord) (fault : Option Fault) (stamp : Stamp)
    (lane : Lane) : Except JournalError Unit × Lane :=
  let encoded := encodedLine codec r
  let cachedSize := (cache.identity.map FileIdentity.size).getD 0
  if maxBytes < cachedSize + encoded.length then
    (.error ⟨"authority journal append exceeds configured byte maximum"⟩, lane)
  else match prepareRecord codec.digest cache.state r with
  | .error e => (.error e, lane)
  | .ok delta =>
    if fault = some .beforeOpen then
      (.error ⟨"authority journal trusted directory chain changed"⟩, lane)
    else
      let created := lane.file.isNone
      let f := lane.file.getD stamp.created
      if fault = some .afterOpen then
        (.error ⟨"authority journal trusted directory chain changed"⟩, { lane with file := some f })
      else match unchanged cache created f with
      | .error e => (.error e, { lane with file := some f })
      | .ok () =>
        let written := f.rewritten stamp (f.bytes ++ encoded)
        (.ok (), ⟨some written, some ⟨cache.records ++ [r], applyDelta cache.state delta,
          some written.identity, written.bytes.length - encoded.length, encoded⟩⟩)

def append (r : JournalRecord) (fault : Option Fault) (stamp : Stamp) (lane : Lane) :
    Except JournalError Unit × Lane :=
  match lane.cache with
  | some cache => appendCached codec maxBytes cache r fault stamp lane
  | none =>
    match load codec maxBytes false lane with
    | (.error e, loaded) => (.error e, loaded)
    | (.ok _, loaded) =>
      match loaded.cache with
      | none => (.error changedSince, loaded)
      | some cache => appendCached codec maxBytes cache r fault stamp loaded

/-- `_remove_tail`; the evidence that it keeps lies beside the lane. -/
def removeTail (offset : Nat) (data : Bytes) (identity : Option FileIdentity) (stamp : Stamp)
    (lane : Lane) : Except JournalError Unit × Lane :=
  match lane.file with
  | none => (.error ⟨"No such file or directory"⟩, lane)
  | some f =>
    if some f.identity ≠ identity ∨ f.pread data.length offset ≠ data then
      (.error changedSince, lane)
    else
      let file := if offset = 0 then none else some (f.rewritten stamp (f.bytes.take offset))
      let (loaded, lane) := load codec maxBytes false { lane with file := file }
      (loaded.map (fun _ => ()), lane)

def retractCached (cache : JournalCache) (r : JournalRecord) (stamp : Stamp) (lane : Lane) :
    Except JournalError Unit × Lane :=
  let encoded := encodedLine codec r
  if cache.records.getLast? ≠ some r ∨ cache.tailBytes ≠ encoded then
    (.error ⟨"authority journal retraction requires the final record"⟩, lane)
  else removeTail codec maxBytes cache.tailOffset encoded cache.identity stamp lane

def retract (r : JournalRecord) (stamp : Stamp) (lane : Lane) : Except JournalError Unit × Lane :=
  match lane.cache with
  | some cache => retractCached codec maxBytes cache r stamp lane
  | none =>
    match load codec maxBytes false lane with
    | (.error e, loaded) => (.error e, loaded)
    | (.ok _, loaded) =>
      match loaded.cache with
      | none => (.error changedSince, loaded)
      | some cache => retractCached codec maxBytes cache r stamp loaded

inductive Call where
  | load (timedOut : Bool)
  | append (r : JournalRecord) (fault : Option Fault) (stamp : Stamp)
  | retract (r : JournalRecord) (stamp : Stamp)

def Call.run (lane : Lane) : Call → Lane
  | .load timedOut => (Authority.load codec maxBytes timedOut lane).2
  | .append r fault stamp => (Authority.append codec maxBytes r fault stamp lane).2
  | .retract r stamp => (Authority.retract codec maxBytes r stamp lane).2

def runCalls (lane : Lane) (calls : List Call) : Lane := calls.foldl (Call.run codec maxBytes) lane

end Operations

section Lines

variable {codec : Codec} {maxBytes : Nat}

theorem readline_line {p : Bytes} (plain : newline ∉ p) (rest : Bytes) {limit : Nat}
    (short : p.length < limit) :
    readline limit (p ++ newline :: rest) = (p ++ [newline], rest) := by
  induction p generalizing limit with
  | nil =>
    cases limit with
    | zero => exact absurd short (Nat.not_lt_zero _)
    | succ limit => simp [readline]
  | cons b p ih =>
    cases limit with
    | zero => exact absurd short (Nat.not_lt_zero _)
    | succ limit =>
      rw [List.mem_cons, not_or] at plain
      have onward := ih plain.2 (Nat.lt_of_succ_lt_succ short)
      simp [readline, Ne.symm plain.1, onward]

/-- The line and the rest make up the bytes, and the line ends at its first newline. -/
theorem readline_spec (limit : Nat) (bytes : Bytes) :
    bytes = (readline (limit + 1) bytes).1 ++ (readline (limit + 1) bytes).2 ∧
      newline ∉ (readline (limit + 1) bytes).1.dropLast ∧
      ((readline (limit + 1) bytes).1 = [] ↔ bytes = []) := by
  induction limit generalizing bytes with
  | zero =>
    cases bytes with
    | nil => simp [readline]
    | cons b rest =>
      by_cases same : b = newline <;> simp [readline, same]
  | succ limit ih =>
    cases bytes with
    | nil => simp [readline]
    | cons b rest =>
      by_cases same : b = newline
      · simp [readline, same]
      · obtain ⟨parts, clean, _⟩ := ih rest
        rw [readline, if_neg same]
        generalize readline (limit + 1) rest = out at parts clean
        obtain ⟨line, left⟩ := out
        refine ⟨by simpa using parts, ?_, by simp⟩
        cases line with
        | nil => simp
        | cons c line =>
          rw [List.dropLast_cons_cons, List.mem_cons, not_or]
          exact ⟨Ne.symm same, clean⟩

structure Lined (codec : Codec) (r : JournalRecord) : Prop where
  reads : codec.decode (codec.encode r) = some r
  plain : newline ∉ codec.encode r
  filled : codec.encode r ≠ []
  bounded : (codec.encode r).length ≤ maxMessageBytes

theorem Lined.of_valid {r : JournalRecord} (valid : codec.Valid r) : Lined codec r :=
  ⟨codec.decode_encode r valid, codec.plain r valid, codec.filled r valid, codec.bounded r valid⟩

theorem readRecord_encodedLine {r : JournalRecord} (lined : Lined codec r) :
    readRecord codec (encodedLine codec r) = .ok r := by
  have short : ¬ (codec.encode r = [] ∨ maxMessageBytes < (codec.encode r).length) := by
    rintro (empty | long)
    · exact lined.filled empty
    · exact absurd lined.bounded (Nat.not_le.2 long)
  simp [readRecord, encodedLine, lined.reads, short]

theorem readRecord_ok {line : Bytes} {r : JournalRecord}
    (plain : newline ∉ line.dropLast) (read : readRecord codec line = .ok r) :
    line = encodedLine codec r ∧ Lined codec r := by
  unfold readRecord at read
  split at read
  · cases read
  rename_i ends
  dsimp only at read
  split at read
  · cases read
  rename_i short
  split at read
  · cases read
  rename_i decoded parsed
  split at read
  · cases read
  rename_i canonical
  obtain rfl := Except.ok.inj read
  rw [not_not] at canonical ends
  rw [not_or, Nat.not_lt, ← canonical] at short
  rw [← canonical] at parsed plain
  refine ⟨?_, parsed, plain, short.1, short.2⟩
  rw [encodedLine, canonical]
  exact (List.dropLast_append_getLast? _ ends).symm

def linesOf (codec : Codec) (records : List JournalRecord) : Bytes :=
  records.flatMap (encodedLine codec)

theorem linesOf_append (front back : List JournalRecord) :
    linesOf codec (front ++ back) = linesOf codec front ++ linesOf codec back :=
  List.flatMap_append

theorem encodedLine_ne_nil (r : JournalRecord) : encodedLine codec r ≠ [] := by
  simp [encodedLine]

theorem readline_encodedLine {r : JournalRecord} (lined : Lined codec r) (rest : Bytes) :
    readline (maxMessageBytes + 2) (encodedLine codec r ++ rest) = (encodedLine codec r, rest) := by
  have short : (codec.encode r).length < maxMessageBytes + 2 := by
    have := lined.bounded
    omega
  rw [encodedLine, List.append_assoc, List.singleton_append,
    readline_line lined.plain rest short]

theorem linesOf_eq_nil {records : List JournalRecord} (empty : linesOf codec records = []) :
    records = [] := by
  cases records with
  | nil => rfl
  | cons r rest =>
    have first : encodedLine codec r = [] := (List.append_eq_nil_iff.1 empty).1
    exact absurd first (encodedLine_ne_nil r)

theorem readFrom_ok {fuel : Nat} : ∀ {consumed : Nat} {state final : ValidationState}
    {before records : List JournalRecord} {bytes : Bytes}, bytes.length ≤ fuel →
    readFrom codec maxBytes fuel consumed state before bytes = .ok (records, final) →
    ∃ rs, bytes = linesOf codec rs ∧ (∀ r ∈ rs, Lined codec r) ∧
      validateFrom codec.digest state rs = .ok final ∧ records = before ++ rs := by
  induction fuel with
  | zero =>
    intro consumed state final before records bytes enough read
    obtain rfl : bytes = [] := List.eq_nil_of_length_eq_zero (Nat.le_zero.1 enough)
    simp only [readFrom, Except.ok.injEq, Prod.mk.injEq] at read
    obtain ⟨rfl, rfl⟩ := read
    exact ⟨[], rfl, List.forall_mem_nil _, rfl, (List.append_nil _).symm⟩
  | succ fuel ih =>
    intro consumed state final before records bytes enough read
    obtain ⟨parts, plain, empty⟩ := readline_spec (maxMessageBytes + 1) bytes
    unfold readFrom at read
    generalize readline (maxMessageBytes + 1 + 1) bytes = out at parts plain empty read
    obtain ⟨line, rest⟩ := out
    dsimp only at parts plain empty read
    split at read
    · rename_i done
      obtain rfl := empty.1 done
      simp only [Except.ok.injEq, Prod.mk.injEq] at read
      obtain ⟨rfl, rfl⟩ := read
      exact ⟨[], rfl, List.forall_mem_nil _, rfl, (List.append_nil _).symm⟩
    split at read
    · cases read
    rename_i filled _
    cases one : readRecord codec line with
    | error e =>
      rw [one] at read
      cases read
    | ok r =>
      rw [one] at read
      cases checked : validateRecord codec.digest state r with
      | error e =>
        simp only [bind, Except.bind, checked] at read
        cases read
      | ok next =>
        simp only [bind, Except.bind, checked] at read
        obtain ⟨rfl, lined⟩ := readRecord_ok plain one
        have shorter : rest.length ≤ fuel := by
          have long : 0 < (encodedLine codec r).length := List.length_pos_iff.2 filled
          rw [parts, List.length_append] at enough
          omega
        obtain ⟨rs, lines, good, valid, rfl⟩ := ih shorter read
        refine ⟨r :: rs, ?_, List.forall_mem_cons.2 ⟨lined, good⟩, ?_, by simp⟩
        · rw [parts, lines]
          rfl
        · simp only [validateFrom, List.foldlM_cons, checked] at valid ⊢
          exact valid

theorem readFrom_linesOf {fuel : Nat} : ∀ {consumed : Nat} {state final : ValidationState}
    {before rs : List JournalRecord}, (linesOf codec rs).length ≤ fuel →
    consumed + (linesOf codec rs).length ≤ maxBytes → (∀ r ∈ rs, Lined codec r) →
    validateFrom codec.digest state rs = .ok final →
    readFrom codec maxBytes fuel consumed state before (linesOf codec rs) =
      .ok (before ++ rs, final) := by
  induction fuel with
  | zero =>
    intro consumed state final before rs enough small good valid
    obtain rfl := linesOf_eq_nil (List.eq_nil_of_length_eq_zero (Nat.le_zero.1 enough))
    cases valid
    rw [readFrom, List.append_nil]
  | succ fuel ih =>
    intro consumed state final before rs enough small good valid
    cases rs with
    | nil =>
      cases valid
      rw [List.append_nil]
      rfl
    | cons r rs =>
      have lined := good r (.head rs)
      have split : linesOf codec (r :: rs) = encodedLine codec r ++ linesOf codec rs := rfl
      have long : 0 < (encodedLine codec r).length := List.length_pos_iff.2 (encodedLine_ne_nil r)
      rw [split, List.length_append] at enough small
      cases checked : validateRecord codec.digest state r with
      | error e =>
        simp only [validateFrom, List.foldlM_cons, checked] at valid
        cases valid
      | ok next =>
        simp only [validateFrom, List.foldlM_cons, checked] at valid
        unfold readFrom
        rw [split, readline_encodedLine lined]
        dsimp only
        rw [if_neg (encodedLine_ne_nil r), if_neg (by omega), readRecord_encodedLine lined]
        simp only [bind, Except.bind, checked]
        rw [ih (by omega) (by omega) (fun q member => good q (.tail r member)) valid,
          List.append_assoc, List.singleton_append]

/-- A file is accepted if it consists of the lines of records that are valid in their order, and
is not too long. -/
theorem reloadBytes_ok_iff {bytes : Bytes} {records : List JournalRecord}
    {state : ValidationState} :
    reloadBytes codec maxBytes bytes = .ok (records, state) ↔
      bytes = linesOf codec records ∧ bytes.length ≤ maxBytes ∧
        (∀ r ∈ records, Lined codec r) ∧ validateRecords codec.digest records = .ok state := by
  unfold reloadBytes
  constructor
  · intro read
    split at read
    · cases read
    rename_i small
    obtain ⟨rs, lines, good, valid, rfl⟩ := readFrom_ok (Nat.le_refl _) read
    exact ⟨lines, Nat.not_lt.1 small, good, valid⟩
  · rintro ⟨rfl, small, good, valid⟩
    rw [if_neg (Nat.not_lt.2 small)]
    exact readFrom_linesOf (Nat.le_refl _) (by omega) good valid

end Lines

section Caching

variable {codec : Codec} {maxBytes : Nat} {lane : Lane} {cache : JournalCache}

def fileBytes (file : Option LaneFile) : Bytes := (file.map LaneFile.bytes).getD []

theorem reloadBytes_nil : reloadBytes codec maxBytes [] = .ok ([], {}) :=
  reloadBytes_ok_iff.2 ⟨rfl, Nat.zero_le _, List.forall_mem_nil _, rfl⟩

theorem reload_eq (file : Option LaneFile) :
    reload codec maxBytes file = reloadBytes codec maxBytes (fileBytes file) := by
  cases file with
  | none => exact reloadBytes_nil.symm
  | some f => rfl

/-- The cache of a lane: what a reload gives, together with the identity of the file if there was
one to look at. -/
structure Caches (codec : Codec) (maxBytes : Nat) (file : Option LaneFile)
    (cache : JournalCache) : Prop where
  reloads : reload codec maxBytes file = .ok (cache.records, cache.state)
  seen : cache = cacheOf codec none [] {} ∨
    ∃ f, file = some f ∧ cache = cacheOf codec (some f) cache.records cache.state

def Lane.Sound (codec : Codec) (maxBytes : Nat) (lane : Lane) : Prop :=
  ∀ cache, lane.cache = some cache → Caches codec maxBytes lane.file cache

def Lane.Stale (lane : Lane) : Prop :=
  ∃ cache, lane.cache = some cache ∧ cache.identity = none ∧ lane.file.isSome

theorem Caches.of_reload {file : Option LaneFile} {records : List JournalRecord}
    {state : ValidationState} (read : reload codec maxBytes file = .ok (records, state)) :
    Caches codec maxBytes file (cacheOf codec file records state) := by
  cases file with
  | none => exact ⟨rfl, .inl rfl⟩
  | some f => exact ⟨read, .inr ⟨f, rfl, rfl⟩⟩

theorem load_cases (timedOut : Bool) (lane : Lane) :
    (∃ e, load codec maxBytes timedOut lane = (.error e, lane)) ∨
      ∃ records state, reload codec maxBytes lane.file = .ok (records, state) ∧
        load codec maxBytes timedOut lane =
          (.ok records, ⟨lane.file, some (cacheOf codec lane.file records state)⟩) := by
  unfold load
  split
  · exact .inl ⟨_, rfl⟩
  · cases read : reload codec maxBytes lane.file with
    | error e => exact .inl ⟨e, rfl⟩
    | ok result => exact .inr ⟨result.1, result.2, rfl, rfl⟩

theorem Caches.absent {file : Option LaneFile} (caches : Caches codec maxBytes file cache)
    (none : cache.identity = none) : cache = cacheOf codec .none [] {} ∧ fileBytes file = [] := by
  rcases caches.seen with same | ⟨f, _, same⟩
  · refine ⟨same, ?_⟩
    have read := caches.reloads
    rw [same, reload_eq] at read
    exact (reloadBytes_ok_iff.1 read).1
  · rw [same] at none
    cases none

theorem Caches.present {file : Option LaneFile} {identity : FileIdentity}
    (caches : Caches codec maxBytes file cache) (known : cache.identity = some identity) :
    ∃ f, file = some f ∧ f.identity = identity ∧
      cache = cacheOf codec (some f) cache.records cache.state := by
  rcases caches.seen with same | ⟨f, here, same⟩
  · rw [same] at known
    cases known
  · refine ⟨f, here, ?_, same⟩
    rw [same] at known
    exact Option.some.inj known

theorem Caches.bytes {file : Option LaneFile} (caches : Caches codec maxBytes file cache) :
    fileBytes file = linesOf codec cache.records ∧ (∀ r ∈ cache.records, Lined codec r) ∧
      validateRecords codec.digest cache.records = .ok cache.state := by
  have read := caches.reloads
  rw [reload_eq] at read
  obtain ⟨lines, _, good, valid⟩ := reloadBytes_ok_iff.1 read
  exact ⟨lines, good, valid⟩

theorem Caches.size {file : Option LaneFile} (caches : Caches codec maxBytes file cache) :
    (cache.identity.map FileIdentity.size).getD 0 = (fileBytes file).length := by
  cases known : cache.identity with
  | none =>
    rw [(caches.absent known).2]
    rfl
  | some identity =>
    obtain ⟨f, rfl, rfl, _⟩ := caches.present known
    rfl

theorem Caches.tail {f : LaneFile} (caches : Caches codec maxBytes (some f) cache)
    (same : cache = cacheOf codec (some f) cache.records cache.state) :
    f.pread cache.tailBytes.length cache.tailOffset = cache.tailBytes := by
  have lines : f.bytes = linesOf codec cache.records := caches.bytes.1
  rw [same]
  simp only [cacheOf, LaneFile.pread]
  rcases List.eq_nil_or_concat cache.records with empty | ⟨front, r, split⟩
  · simp [empty]
  · rw [lines, split]
    simp [linesOf]

end Caching

section Steps

variable {codec : Codec} {maxBytes : Nat} {lane : Lane} {cache : JournalCache} {r : JournalRecord}
  {stamp : Stamp}

def openedFile (lane : Lane) (stamp : Stamp) : LaneFile := lane.file.getD stamp.created

theorem fileBytes_opened : fileBytes (some (openedFile lane stamp)) = fileBytes lane.file := by
  cases opened : lane.file <;> simp [fileBytes, openedFile, opened, Stamp.created]

theorem Caches.opened (caches : Caches codec maxBytes lane.file cache) :
    Caches codec maxBytes (some (openedFile lane stamp)) cache := by
  refine ⟨?_, ?_⟩
  · rw [reload_eq, fileBytes_opened, ← reload_eq]
    exact caches.reloads
  · rcases caches.seen with same | ⟨f, here, same⟩
    · exact .inl same
    · refine .inr ⟨f, ?_, same⟩
      rw [openedFile, here]
      rfl

/-- The guards of an append pass where the cache knows the file, and where neither the journal nor
the system knows one. -/
theorem unchanged_ok_iff (caches : Caches codec maxBytes lane.file cache) :
    unchanged cache lane.file.isNone (openedFile lane stamp) = .ok () ↔
      ¬ (cache.identity = none ∧ lane.file.isSome) := by
  unfold unchanged
  cases known : cache.identity with
  | none =>
    obtain ⟨_, empty⟩ := caches.absent known
    cases here : lane.file with
    | none => simp [openedFile, here, Stamp.created]
    | some f => simp
  | some identity =>
    obtain ⟨f, here, rfl, same⟩ := caches.present known
    have opened : openedFile lane stamp = f := by
      rw [openedFile, here]
      rfl
    have tail := Caches.tail (here ▸ caches) same
    simp [opened, tail]

/-- The record passes the checks that an append makes before it opens the file. -/
structure Prepared (codec : Codec) (maxBytes : Nat) (cache : JournalCache) (r : JournalRecord)
    (delta : ValidationDelta) : Prop where
  size : (cache.identity.map FileIdentity.size).getD 0 + (encodedLine codec r).length ≤ maxBytes
  prepared : prepareRecord codec.digest cache.state r = .ok delta

def written (codec : Codec) (cache : JournalCache) (r : JournalRecord) (delta : ValidationDelta)
    (stamp : Stamp) (f : LaneFile) : Lane :=
  let next := f.rewritten stamp (f.bytes ++ encodedLine codec r)
  ⟨some next, some ⟨cache.records ++ [r], applyDelta cache.state delta, some next.identity,
    next.bytes.length - (encodedLine codec r).length, encodedLine codec r⟩⟩

theorem appendCached_cases (cache : JournalCache) (r : JournalRecord) (fault : Option Fault)
    (stamp : Stamp) (lane : Lane) :
    (∃ e, appendCached codec maxBytes cache r fault stamp lane = (.error e, lane)) ∨
    (∃ e, appendCached codec maxBytes cache r fault stamp lane =
        (.error e, { lane with file := some (openedFile lane stamp) }) ∧
      (fault = some .afterOpen ∨
        unchanged cache lane.file.isNone (openedFile lane stamp) = .error e)) ∨
    ∃ delta, Prepared codec maxBytes cache r delta ∧
      unchanged cache lane.file.isNone (openedFile lane stamp) = .ok () ∧
      appendCached codec maxBytes cache r fault stamp lane =
        (.ok (), written codec cache r delta stamp (openedFile lane stamp)) := by
  unfold appendCached
  dsimp only
  split
  · exact .inl ⟨_, rfl⟩
  rename_i small
  cases prepared : prepareRecord codec.digest cache.state r with
  | error e => exact .inl ⟨e, rfl⟩
  | ok delta =>
    dsimp only
    split
    · exact .inl ⟨_, rfl⟩
    split
    · rename_i late
      exact .inr (.inl ⟨_, rfl, .inl late⟩)
    · cases same : unchanged cache lane.file.isNone (openedFile lane stamp) with
      | error e =>
        refine .inr (.inl ⟨e, ?_, .inr rfl⟩)
        rw [openedFile] at same ⊢
        simp only [same]
      | ok _ =>
        refine .inr (.inr ⟨delta, ⟨Nat.not_lt.1 small, prepared⟩, rfl, ?_⟩)
        rw [openedFile] at same ⊢
        simp only [same, written]

theorem reload_written {delta : ValidationDelta} {file : Option LaneFile}
    (caches : Caches codec maxBytes file cache) (lined : Lined codec r)
    (prepared : Prepared codec maxBytes cache r delta) :
    reloadBytes codec maxBytes (fileBytes file ++ encodedLine codec r) =
      .ok (cache.records ++ [r], applyDelta cache.state delta) := by
  obtain ⟨lines, good, valid⟩ := caches.bytes
  have size := prepared.size
  rw [caches.size] at size
  refine reloadBytes_ok_iff.2 ⟨?_, ?_, ?_, ?_⟩
  · rw [linesOf_append, lines]
    simp [linesOf]
  · rw [List.length_append]
    exact size
  · intro q member
    rcases List.mem_append.1 member with old | new
    · exact good q old
    · rw [List.mem_singleton.1 new]
      exact lined
  · rw [validateRecords_append_singleton, valid]
    simp only [Except.bind, validateRecord, prepared.prepared, Except.map]

theorem Caches.written {delta : ValidationDelta} {f : LaneFile}
    (caches : Caches codec maxBytes (some f) cache) (lined : Lined codec r)
    (prepared : Prepared codec maxBytes cache r delta) :
    (Authority.written codec cache r delta stamp f).Sound codec maxBytes := by
  intro next same
  obtain rfl := Option.some.inj same
  refine ⟨?_, .inr ⟨_, rfl, ?_⟩⟩
  · exact reload_written caches lined prepared
  · simp [cacheOf]

theorem sound_appendCached (caches : Caches codec maxBytes lane.file cache)
    (known : lane.cache = some cache) (lined : Lined codec r) (fault : Option Fault) :
    (appendCached codec maxBytes cache r fault stamp lane).2.Sound codec maxBytes := by
  rcases appendCached_cases cache r fault stamp lane with
    ⟨e, same⟩ | ⟨e, same, _⟩ | ⟨delta, prepared, _, same⟩
  · rw [same]
    intro other is
    rw [known] at is
    rw [← Option.some.inj is]
    exact caches
  · rw [same]
    intro other is
    rw [known] at is
    rw [← Option.some.inj is]
    exact caches.opened
  · rw [same]
    exact caches.opened.written lined prepared

theorem sound_load (sound : lane.Sound codec maxBytes) (timedOut : Bool) :
    (load codec maxBytes timedOut lane).2.Sound codec maxBytes := by
  rcases @load_cases codec maxBytes timedOut lane with ⟨e, same⟩ | ⟨records, state, read, same⟩
  · rw [same]
    exact sound
  · rw [same]
    intro cache is
    obtain rfl := Option.some.inj is
    exact Caches.of_reload read

theorem sound_append (sound : lane.Sound codec maxBytes) (lined : Lined codec r)
    (fault : Option Fault) : (append codec maxBytes r fault stamp lane).2.Sound codec maxBytes := by
  unfold append
  cases known : lane.cache with
  | some cache => exact sound_appendCached (sound cache known) known lined fault
  | none =>
    rcases @load_cases codec maxBytes false lane with ⟨e, same⟩ | ⟨records, state, read, same⟩
    · simp only [same]
      exact sound
    · simp only [same]
      exact @sound_appendCached codec maxBytes ⟨lane.file, some (cacheOf codec lane.file records state)⟩
        _ r stamp (Caches.of_reload read) rfl lined fault

theorem reload_truncated {f : LaneFile} (caches : Caches codec maxBytes (some f) cache)
    (same : cache = cacheOf codec (some f) cache.records cache.state)
    (final : cache.records.getLast? = some r) :
    ∃ state, reloadBytes codec maxBytes (f.bytes.take cache.tailOffset) =
      .ok (cache.records.dropLast, state) := by
  obtain ⟨lines, good, valid⟩ := caches.bytes
  have lines : f.bytes = linesOf codec cache.records := lines
  have read := caches.reloads
  rw [reload_eq] at read
  have small : f.bytes.length ≤ maxBytes := (reloadBytes_ok_iff.1 read).2.1
  have split : cache.records.dropLast ++ [r] = cache.records :=
    List.dropLast_append_getLast? r final
  have taken : f.bytes.take cache.tailOffset = linesOf codec cache.records.dropLast := by
    have whole : f.bytes = linesOf codec cache.records.dropLast ++ encodedLine codec r := by
      rw [lines, ← split, linesOf_append]
      simp [linesOf]
    have offset : cache.tailOffset = f.bytes.length - (encodedLine codec r).length := by
      rw [same]
      simp [cacheOf, final]
    rw [offset, whole]
    simp
  obtain ⟨state, valid⟩ := validateRecords_take valid (cache.records.length - 1)
  rw [← List.dropLast_eq_take] at valid
  refine ⟨state, reloadBytes_ok_iff.2 ⟨taken, ?_, ?_, valid⟩⟩
  · exact Nat.le_trans (List.length_take_le' _ _) small
  · exact fun q member => good q ((List.dropLast_sublist _).subset member)

theorem sound_retractCached (caches : Caches codec maxBytes lane.file cache)
    (known : lane.cache = some cache) :
    (retractCached codec maxBytes cache r stamp lane).2.Sound codec maxBytes := by
  have still : lane.Sound codec maxBytes := by
    intro other is
    rw [known] at is
    rw [← Option.some.inj is]
    exact caches
  unfold retractCached
  dsimp only
  split
  · exact still
  rename_i last
  rw [not_or, not_not, not_not] at last
  unfold removeTail
  cases here : lane.file with
  | none => exact still
  | some f =>
    dsimp only
    split
    · exact still
    rename_i guarded
    rw [not_or, not_not, not_not] at guarded
    obtain ⟨f', here', _, same⟩ := caches.present guarded.1.symm
    rw [here] at here'
    obtain rfl := Option.some.inj here'
    rw [here] at caches
    obtain ⟨state, read⟩ := reload_truncated caches same last.1
    -- what is left of the file is accepted, so the load that follows succeeds
    have reread : ∃ records state, reload codec maxBytes (if cache.tailOffset = 0 then none else
        some (f.rewritten stamp (f.bytes.take cache.tailOffset))) = .ok (records, state) := by
      split
      · exact ⟨_, _, rfl⟩
      · exact ⟨_, state, read⟩
    obtain ⟨records, state, read⟩ := reread
    intro other is
    simp only [load, Bool.false_eq_true, if_false, read] at is ⊢
    rw [← Option.some.inj is]
    exact Caches.of_reload read

theorem sound_retract (sound : lane.Sound codec maxBytes) :
    (retract codec maxBytes r stamp lane).2.Sound codec maxBytes := by
  unfold retract
  cases known : lane.cache with
  | some cache => exact sound_retractCached (sound cache known) known
  | none =>
    rcases @load_cases codec maxBytes false lane with ⟨e, same⟩ | ⟨records, state, read, same⟩
    · simp only [same]
      exact sound
    · simp only [same]
      exact @sound_retractCached codec maxBytes
        ⟨lane.file, some (cacheOf codec lane.file records state)⟩ _ r stamp (Caches.of_reload read) rfl

end Steps

section Runs

variable {codec : Codec} {maxBytes : Nat} {lane : Lane} {r : JournalRecord} {stamp : Stamp}

def Call.Valid (codec : Codec) : Call → Prop
  | .load _ => True
  | .append r _ _ => codec.Valid r
  | .retract r _ => codec.Valid r

def Call.Unbroken : Call → Prop
  | .append _ fault _ => fault ≠ some .afterOpen
  | _ => True

theorem Call.sound {call : Call} (valid : call.Valid codec) (sound : lane.Sound codec maxBytes) :
    (call.run codec maxBytes lane).Sound codec maxBytes := by
  cases call with
  | load timedOut => exact sound_load sound timedOut
  | append r fault stamp => exact sound_append sound (Lined.of_valid valid) fault
  | retract r stamp => exact sound_retract sound

theorem sound_runCalls {calls : List Call} (valid : ∀ call ∈ calls, call.Valid codec)
    (sound : lane.Sound codec maxBytes) : (runCalls codec maxBytes lane calls).Sound codec maxBytes := by
  induction calls generalizing lane with
  | nil => exact sound
  | cons call rest ih =>
    exact ih (fun other member => valid other (.tail call member))
      (Call.sound (valid call (.head rest)) sound)

theorem not_stale_loaded (file : Option LaneFile) (records : List JournalRecord)
    (state : ValidationState) : ¬ Lane.Stale ⟨file, some (cacheOf codec file records state)⟩ := by
  rintro ⟨cache, is, unknown, present⟩
  obtain rfl := Option.some.inj is
  cases file with
  | none => cases present
  | some f => cases unknown

theorem not_stale_load (fresh : ¬ lane.Stale) (timedOut : Bool) :
    ¬ (load codec maxBytes timedOut lane).2.Stale := by
  rcases @load_cases codec maxBytes timedOut lane with ⟨e, same⟩ | ⟨records, state, _, same⟩
  · rw [same]
    exact fresh
  · rw [same]
    exact not_stale_loaded _ _ _

/-- A lane that is stale has an empty file, which a load reads. -/
theorem not_stale_of_load (sound : lane.Sound codec maxBytes) :
    ¬ (load codec maxBytes false lane).2.Stale := by
  rcases @load_cases codec maxBytes false lane with ⟨e, same⟩ | ⟨records, state, _, same⟩
  · rw [same]
    rintro ⟨cache, known, unknown, present⟩
    obtain ⟨f, is⟩ := Option.isSome_iff_exists.mp present
    have empty := ((sound cache known).absent unknown).2
    rw [is] at empty
    have read : reload codec maxBytes lane.file = .ok ([], {}) := by
      rw [is, reload, show f.bytes = [] from empty]
      exact reloadBytes_nil
    simp [load, read] at same
  · rw [same]
    exact not_stale_loaded _ _ _

theorem not_stale_appendCached {cache : JournalCache} (sound : lane.Sound codec maxBytes)
    (known : lane.cache = some cache) (fresh : ¬ lane.Stale) {fault : Option Fault}
    (unbroken : fault ≠ some .afterOpen) :
    ¬ (appendCached codec maxBytes cache r fault stamp lane).2.Stale := by
  rcases @appendCached_cases codec maxBytes cache r fault stamp lane with
    ⟨e, same⟩ | ⟨e, _, late | raised⟩ | ⟨delta, _, _, same⟩
  · rw [same]
    exact fresh
  · exact absurd late unbroken
  · have guarded := (@unchanged_ok_iff codec maxBytes lane cache stamp (sound cache known)).2
      (fun stale => fresh ⟨cache, known, stale⟩)
    rw [guarded] at raised
    cases raised
  · rw [same]
    rintro ⟨next, is, unknown, _⟩
    rw [← Option.some.inj is] at unknown
    cases unknown

theorem not_stale_append (sound : lane.Sound codec maxBytes) (fresh : ¬ lane.Stale)
    {fault : Option Fault} (unbroken : fault ≠ some .afterOpen) :
    ¬ (append codec maxBytes r fault stamp lane).2.Stale := by
  unfold append
  cases known : lane.cache with
  | some cache => exact not_stale_appendCached sound known fresh unbroken
  | none =>
    rcases @load_cases codec maxBytes false lane with ⟨e, same⟩ | ⟨records, state, read, same⟩
    · simp only [same]
      exact fresh
    · simp only [same]
      refine not_stale_appendCached ?_ rfl (not_stale_loaded _ _ _) unbroken
      intro cache is
      obtain rfl := Option.some.inj is
      exact Caches.of_reload read

theorem not_stale_retractCached {cache : JournalCache} (fresh : ¬ lane.Stale)
    (known : lane.cache = some cache) :
    ¬ (retractCached codec maxBytes cache r stamp lane).2.Stale := by
  unfold retractCached removeTail
  dsimp only
  split
  · exact fresh
  cases here : lane.file with
  | none => exact fresh
  | some f =>
    dsimp only
    split
    · exact fresh
    · rename_i guarded
      rw [not_or, not_not] at guarded
      refine not_stale_load ?_ false
      -- the cache has the identity of the file that is removed
      rintro ⟨other, is, unknown, _⟩
      have is : lane.cache = some other := is
      rw [known] at is
      rw [← Option.some.inj is, ← guarded.1] at unknown
      cases unknown

theorem not_stale_retract (fresh : ¬ lane.Stale) :
    ¬ (retract codec maxBytes r stamp lane).2.Stale := by
  unfold retract
  cases known : lane.cache with
  | some cache => exact not_stale_retractCached fresh known
  | none =>
    rcases @load_cases codec maxBytes false lane with ⟨e, same⟩ | ⟨records, state, _, same⟩
    · simp only [same]
      exact fresh
    · simp only [same]
      exact not_stale_retractCached (not_stale_loaded _ _ _) rfl

theorem not_stale_runCalls {calls : List Call} (valid : ∀ call ∈ calls, call.Valid codec)
    (unbroken : ∀ call ∈ calls, call.Unbroken) (sound : lane.Sound codec maxBytes)
    (fresh : ¬ lane.Stale) : ¬ (runCalls codec maxBytes lane calls).Stale := by
  induction calls generalizing lane with
  | nil => exact fresh
  | cons call rest ih =>
    refine ih (fun other member => valid other (.tail call member))
      (fun other member => unbroken other (.tail call member))
      (Call.sound (valid call (.head rest)) sound) ?_
    have first := unbroken call (.head rest)
    cases call with
    | load timedOut => exact not_stale_load fresh timedOut
    | append r fault stamp => exact not_stale_append sound fresh first
    | retract r stamp => exact not_stale_retract fresh

def Accepts (codec : Codec) (maxBytes : Nat) (file : Option LaneFile) (r : JournalRecord) : Prop :=
  ∃ records state final, reload codec maxBytes file = .ok (records, state) ∧
    reloadBytes codec maxBytes (fileBytes file ++ encodedLine codec r) = .ok (records ++ [r], final)

theorem accepts_iff {cache : JournalCache} {file : Option LaneFile}
    (caches : Caches codec maxBytes file cache) (lined : Lined codec r) :
    Accepts codec maxBytes file r ↔ ∃ delta, Prepared codec maxBytes cache r delta := by
  obtain ⟨lines, good, valid⟩ := caches.bytes
  constructor
  · rintro ⟨records, state, final, read, extended⟩
    rw [caches.reloads] at read
    simp only [Except.ok.injEq, Prod.mk.injEq] at read
    obtain ⟨rfl, rfl⟩ := read
    obtain ⟨_, small, _, checked⟩ := reloadBytes_ok_iff.1 extended
    rw [validateRecords_append_singleton, valid] at checked
    simp only [Except.bind, validateRecord] at checked
    cases prepared : prepareRecord codec.digest cache.state r with
    | error e =>
      rw [prepared] at checked
      cases checked
    | ok delta =>
      refine ⟨delta, ?_, prepared⟩
      rw [caches.size]
      simpa using small
  · rintro ⟨delta, prepared⟩
    exact ⟨_, _, _, caches.reloads, reload_written caches lined prepared⟩

theorem append_ok_iff_cached {cache : JournalCache} (caches : Caches codec maxBytes lane.file cache)
    (known : lane.cache = some cache) (lined : Lined codec r) :
    (appendCached codec maxBytes cache r none stamp lane).1 = .ok () ↔
      Accepts codec maxBytes lane.file r ∧ ¬ lane.Stale := by
  have stale : lane.Stale ↔ (cache.identity = none ∧ lane.file.isSome) := by
    constructor
    · rintro ⟨other, is, rest⟩
      rw [known] at is
      rw [Option.some.inj is]
      exact rest
    · exact fun rest => ⟨cache, known, rest⟩
  rw [stale, ← @unchanged_ok_iff codec maxBytes lane cache stamp caches,
    accepts_iff caches lined]
  constructor
  · intro done
    rcases @appendCached_cases codec maxBytes cache r none stamp lane with
      ⟨e, same⟩ | ⟨e, same, _⟩ | ⟨delta, prepared, guarded, _⟩
    · rw [same] at done
      cases done
    · rw [same] at done
      cases done
    · exact ⟨⟨delta, prepared⟩, guarded⟩
  · rintro ⟨⟨delta, prepared⟩, guarded⟩
    unfold appendCached
    dsimp only
    rw [if_neg (Nat.not_lt.2 prepared.size), prepared.prepared]
    rw [openedFile] at guarded
    simp only [reduceCtorEq, if_false, guarded]

/-- Over any calls of one writer the cache is what a reload gives, and a record is appended if the
file with it would be accepted, unless an append was stopped behind the creation of the lane and
nothing was loaded since. Every front part of an accepted journal is accepted. -/
theorem journal_follows_file (codec : Codec) (maxBytes : Nat) (file : Option LaneFile)
    (calls : List Call) (valid : ∀ call ∈ calls, call.Valid codec) :
    (∀ cache, (runCalls codec maxBytes ⟨file, none⟩ calls).cache = some cache →
      reload codec maxBytes (runCalls codec maxBytes ⟨file, none⟩ calls).file =
        .ok (cache.records, cache.state)) ∧
    (∀ r stamp, codec.Valid r →
      ((append codec maxBytes r none stamp (runCalls codec maxBytes ⟨file, none⟩ calls)).1 = .ok () ↔
        Accepts codec maxBytes (runCalls codec maxBytes ⟨file, none⟩ calls).file r ∧
          ¬ (runCalls codec maxBytes ⟨file, none⟩ calls).Stale)) ∧
    ((∀ call ∈ calls, call.Unbroken) → ¬ (runCalls codec maxBytes ⟨file, none⟩ calls).Stale) ∧
    (∀ earlier later, calls = earlier ++ .load false :: later → (∀ call ∈ later, call.Unbroken) →
      ¬ (runCalls codec maxBytes ⟨file, none⟩ calls).Stale) ∧
    ∀ bytes records state, reloadBytes codec maxBytes bytes = .ok (records, state) →
      bytes = linesOf codec records ∧ ∀ k, ∃ earlier,
        reloadBytes codec maxBytes (linesOf codec (records.take k)) =
          .ok (records.take k, earlier) := by
  have opening : Lane.Sound codec maxBytes ⟨file, none⟩ := by
    intro cache is
    cases is
  have sound := sound_runCalls valid opening
  refine ⟨fun cache known => (sound cache known).reloads, ?_, ?_, ?_, ?_⟩
  · intro r stamp accepted
    generalize runCalls codec maxBytes ⟨file, none⟩ calls = lane at sound ⊢
    have lined := Lined.of_valid accepted
    unfold append
    cases known : lane.cache with
    | some cache => exact append_ok_iff_cached (sound cache known) known lined
    | none =>
      have fresh : ¬ lane.Stale := by
        rintro ⟨cache, is, _⟩
        rw [known] at is
        cases is
      rcases @load_cases codec maxBytes false lane with ⟨e, same⟩ | ⟨records, state, read, same⟩
      · simp only [same]
        refine iff_of_false (by simp) ?_
        rintro ⟨⟨records, state, _, read, _⟩, _⟩
        simp [load, read] at same
      · simp only [same]
        rw [@append_ok_iff_cached codec maxBytes
          ⟨lane.file, some (cacheOf codec lane.file records state)⟩ r stamp _
          (Caches.of_reload read) rfl lined]
        exact and_congr_right fun _ => iff_of_true (not_stale_loaded _ _ _) fresh
  · intro unbroken
    refine not_stale_runCalls valid unbroken opening ?_
    rintro ⟨cache, is, _⟩
    cases is
  · rintro earlier later rfl unbroken
    have before : ∀ call ∈ earlier, call.Valid codec :=
      fun call member => valid call (List.mem_append_left _ member)
    have after : ∀ call ∈ later, call.Valid codec :=
      fun call member => valid call (List.mem_append_right _ (.tail _ member))
    have read := sound_runCalls before opening
    rw [runCalls, List.foldl_append, List.foldl_cons]
    exact not_stale_runCalls after unbroken (sound_load read false) (not_stale_of_load read)
  · intro bytes records state read
    obtain ⟨lines, small, good, checked⟩ := reloadBytes_ok_iff.1 read
    refine ⟨lines, fun k => ?_⟩
    obtain ⟨earlier, front⟩ := validateRecords_take checked k
    refine ⟨earlier, reloadBytes_ok_iff.2 ⟨rfl, ?_, ?_, front⟩⟩
    · have split : linesOf codec records =
          linesOf codec (records.take k) ++ linesOf codec (records.drop k) := by
        rw [← linesOf_append, List.take_append_drop]
      rw [lines, split, List.length_append] at small
      omega
    · exact fun r member => good r (List.mem_of_mem_take member)

def sampleRecord : JournalRecord where
  authorityId := 1
  generation := 1
  systemId := 2
  activationId := 3
  runId := 4
  planIdentity := "sha256:aaaaaaaaaaaaaaaaaaaaaaaaaaaaaaaaaaaaaaaaaaaaaaaaaaaaaaaaaaaaaaaa"
  purpose := .activate
  operation := .activate
  providerKind := "local-libvirt"
  authorityInstance := "host-a"
  operationIdentity := "op-1"
  operationDigest := "sha256:bbbbbbbbbbbbbbbbbbbbbbbbbbbbbbbbbbbbbbbbbbbbbbbbbbbbbbbbbbbbbbbb"
  sequence := 1
  previousDigest := genesisDigest
  phase := .watermarkInstalled
  attemptId := 1

def sampleText : List String :=
  ["\x7b\"activation_id\":", "\"00000000-0000-0000-0000-000000000003\",", "\"attempt_id\":",
    "\"00000000-0000-0000-0000-000000000001\",", "\"authority_id\":",
    "\"00000000-0000-0000-0000-000000000001\",", "\"authority_instance\":\"host-a\",",
    "\"expected_source_identity\":null,", "\"generation\":1,", "\"intended_target_identity\":null,",
    "\"observation\":null,\"operation\":", "\"activate\",\"operation_digest\":",
    "\"sha256:bbbbbbbbbbbbbbbbbbbbbbbbbbbbbbbb", "bbbbbbbbbbbbbbbbbbbbbbbbbbbbbbbb\",",
    "\"operation_identity\":\"op-1\",\"outcome\":nu", "ll,\"phase\":\"watermark-installed\",",
    "\"plan_identity\":", "\"sha256:aaaaaaaaaaaaaaaaaaaaaaaaaaaaaaaa",
    "aaaaaaaaaaaaaaaaaaaaaaaaaaaaaaaa\",", "\"predecessor_generation\":null,",
    "\"previous_digest\":", "\"sha256:00000000000000000000000000000000",
    "00000000000000000000000000000000\",", "\"provider_kind\":\"local-libvirt\",",
    "\"purpose\":\"activate\",\"recovery_objects\":", "[],\"run_id\":",
    "\"00000000-0000-0000-0000-000000000004\",", "\"schema\":\"external-boot-authority-v1\",",
    "\"sequence\":1,\"system_id\":", "\"00000000-0000-0000-0000-000000000002\",",
    "\"watermark_digest\":null,", "\"watermark_sequence\":null\x7d"]

def sampleBytes : Bytes :=
  sampleText.flatMap (fun piece => piece.toList.map (fun c => UInt8.ofNat c.toNat))

theorem sampleBytes_shape : newline ∉ sampleBytes ∧ sampleBytes.length = 966 := by
  decide +kernel

def sampleCodec : Codec where
  encode _ := sampleBytes
  decode bytes := if bytes = sampleBytes then some sampleRecord else none
  digest _ := "sha256:ca6be149001119aa917db9b936b372aa3b70f2def0b9ba1bfeac436fd88f5991"
  Valid r := r = sampleRecord
  decode_encode r valid := by rw [if_pos rfl, valid]
  plain _ _ := sampleBytes_shape.1
  filled _ _ := List.ne_nil_of_length_eq_add_one sampleBytes_shape.2
  bounded _ _ := by
    rw [sampleBytes_shape.2]
    decide

def sampleStamp : Stamp := ⟨1, 7, 0, 0⟩

def defaultMaxJournalBytes : Nat := 64 * 1024 * 1024

theorem sampleRecord_checked :
    ∃ state, validateRecords sampleCodec.digest [sampleRecord] = .ok state := by
  have prepared : ∃ delta, prepareRecord sampleCodec.digest {} sampleRecord = .ok delta := by
    simp [prepareRecord, sampleRecord, linkedWatermark, newOwnership, initialOperationPhases,
      pure, Except.pure, bind, Except.bind]
  obtain ⟨delta, prepared⟩ := prepared
  refine ⟨applyDelta {} delta, ?_⟩
  rw [← List.nil_append [sampleRecord], validateRecords_append_singleton]
  simp only [validateRecords, validateFrom, List.foldlM_nil, pure, Except.pure, Except.bind,
    validateRecord, prepared, Except.map]

theorem length_encodedLine_sample : (encodedLine sampleCodec sampleRecord).length = 967 := by
  simp [encodedLine, sampleCodec, sampleBytes_shape.2]

theorem sampleRecord_accepted : Accepts sampleCodec defaultMaxJournalBytes
    (some sampleStamp.created) sampleRecord := by
  obtain ⟨state, checked⟩ := sampleRecord_checked
  have bytes : fileBytes (some sampleStamp.created) = [] := rfl
  refine ⟨[], {}, state, reloadBytes_nil, ?_⟩
  rw [bytes, List.nil_append, List.nil_append, reloadBytes_ok_iff]
  refine ⟨by simp [linesOf], ?_, ?_, checked⟩
  · rw [length_encodedLine_sample]
    decide
  · intro r member
    rw [List.mem_singleton.1 member]
    exact Lined.of_valid rfl

theorem sampleRecord_appended :
    (append sampleCodec defaultMaxJournalBytes sampleRecord none sampleStamp
      (runCalls sampleCodec defaultMaxJournalBytes ⟨some sampleStamp.created, none⟩
        [.load false])).1 = .ok () := by
  refine ((journal_follows_file sampleCodec defaultMaxJournalBytes (some sampleStamp.created)
    [.load false] (by simp [Call.Valid])).2.1 sampleRecord sampleStamp rfl).2 ⟨?_, ?_⟩
  · exact sampleRecord_accepted
  · exact (journal_follows_file sampleCodec defaultMaxJournalBytes (some sampleStamp.created)
      [.load false] (by simp [Call.Valid])).2.2.1 (by simp [Call.Unbroken])

/-- An append that was stopped behind the creation of the lane is in the way of the next one. -/
theorem created_lane_refuses :
    Accepts sampleCodec defaultMaxJournalBytes
      (runCalls sampleCodec defaultMaxJournalBytes ⟨none, none⟩
        [.append sampleRecord (some .afterOpen) sampleStamp]).file sampleRecord ∧
    (append sampleCodec defaultMaxJournalBytes sampleRecord none sampleStamp
      (runCalls sampleCodec defaultMaxJournalBytes ⟨none, none⟩
        [.append sampleRecord (some .afterOpen) sampleStamp])).1 ≠ .ok () := by
  have lined : Lined sampleCodec sampleRecord := Lined.of_valid rfl
  have caches : Caches sampleCodec defaultMaxJournalBytes none (cacheOf sampleCodec none [] {}) :=
    Caches.of_reload rfl
  have accepted : Accepts sampleCodec defaultMaxJournalBytes none sampleRecord :=
    sampleRecord_accepted
  obtain ⟨delta, prepared⟩ := (accepts_iff caches lined).1 accepted
  -- the first append loads an empty lane, passes its checks and leaves the file it created
  have broken : runCalls sampleCodec defaultMaxJournalBytes ⟨none, none⟩
      [.append sampleRecord (some .afterOpen) sampleStamp] =
        ⟨some sampleStamp.created, some (cacheOf sampleCodec none [] {})⟩ := by
    simp only [runCalls, List.foldl_cons, List.foldl_nil, Call.run, append, load, reload,
      Bool.false_eq_true, if_false, appendCached, prepared.prepared]
    rw [if_neg (Nat.not_lt.2 prepared.size)]
    rfl
  rw [broken]
  refine ⟨sampleRecord_accepted, ?_⟩
  have opened : Caches sampleCodec defaultMaxJournalBytes (some sampleStamp.created)
      (cacheOf sampleCodec none [] {}) := ⟨reloadBytes_nil, .inl rfl⟩
  rw [append]
  intro done
  refine ((@append_ok_iff_cached sampleCodec defaultMaxJournalBytes
    ⟨some sampleStamp.created, some (cacheOf sampleCodec none [] {})⟩ sampleRecord sampleStamp _
    opened rfl lined).1 done).2 ?_
  exact ⟨_, rfl, rfl, rfl⟩

end Runs

end Kdive.Authority
