import Kdive.Mcp.Cursor
import Kdive.Inventory.Records
import Kdive.Lib.IsoTime
import Kdive.Lib.UuidText

/-!
`resources.list`: the fleet a caller sees, a page at a time behind a time and an id. The cursor's
time is compared with the rows' in the interpreter, which has no order between a time with a zone
and one without.
-/
namespace Kdive.Mcp
open JsonText (Str Value str Interpreter)
open IsoTime (DateTime)
open UuidText (Unicode)
open Inventory (ResourceKind)

attribute [local instance] UuidText.neZero

abbrev RowId := Fin (2 ^ 128)

section Cursors

def encodeTsUuidCursor (toolTag : Str) (createdAt : DateTime) (rowId : RowId) : Str :=
  encodeCursor toolTag [createdAt.isoformat, UuidText.text rowId]

def tsUuid (unicode : Unicode) : List Str → Option (DateTime × RowId)
  | [ts, id] =>
    (IsoTime.fromisoformat ts).bind (fun t => (UuidText.uuid unicode id).map (fun u => (t, u)))
  | _ => none

def decodeTsUuidCursor (interpreter : Interpreter) (unicode : Unicode) (toolTag cursor : Str) :
    Except CursorError (DateTime × RowId) := do
  let parts ← decodeCursor interpreter toolTag cursor 2
  orInvalidCursor (tsUuid unicode parts)

end Cursors

section Comparing

/-- `==` of two times: never true of one with a zone and one without. -/
def sameTime (a b : DateTime) : Bool :=
  match a.offset, b.offset with
  | some x, some y => decide (a.instant x = b.instant y)
  | none, none => decide (a.instant 0 = b.instant 0)
  | _, _ => false

inductive ListResourcesFailure
  | recursionError
  | typeError
  deriving DecidableEq

def laterTime (a b : DateTime) : Except ListResourcesFailure Bool :=
  match a.offset, b.offset with
  | some x, some y => .ok (decide (b.instant y < a.instant x))
  | none, none => .ok (decide (b.instant 0 < a.instant 0))
  | _, _ => .error .typeError

end Comparing

/-- A row of `resources`. Its time is a `timestamptz`, which comes with a zone; a row that does not
validate is shown as degraded. -/
structure ResourceRow where
  id : RowId
  createdAt : DateTime
  kind : String
  ownerProject : Option String
  affinityAllowlist : List String
  validates : Bool
  zoned : createdAt.offset.isSome
  deriving DecidableEq

structure ResourcesListRequest where
  kind : Option ResourceKind := none
  limit : Int := defaultListLimit
  cursor : Option Str := none

def resourcesListTag : Str := str "resources.list"

def projectMayPlace (row : ResourceRow) (project : String) : Bool :=
  match row.ownerProject with
  | none => true
  | some owner => project == owner || decide (project ∈ row.affinityAllowlist)

def visibleToProjects (row : ResourceRow) (projects : List String) : Bool :=
  row.ownerProject.isNone || projects.any (projectMayPlace row)

def rowVisible (row : ResourceRow) (viewerProjects : List String) : Bool :=
  !row.validates || visibleToProjects row viewerProjects

/-- `_fetch_resource_rows` on a table in the order of its time and id, and the visible ones. -/
def visibleRows (table : List ResourceRow) (viewerProjects : List String)
    (kind : Option ResourceKind) : List ResourceRow :=
  (table.filter (fun row => kind.all (fun k => decide (row.kind = k.value)))).filter
    (fun row => rowVisible row viewerProjects)

/-- `(created_at, id) > after`: the first of the two that differs decides. -/
def rowBehind (row : ResourceRow) (after : DateTime × RowId) : Except ListResourcesFailure Bool :=
  if sameTime row.createdAt after.1 then .ok (decide (after.2 < row.id))
  else laterTime row.createdAt after.1

def rowsBehind (after : DateTime × RowId) :
    List ResourceRow → Except ListResourcesFailure (List ResourceRow)
  | [] => .ok []
  | row :: rows => do
    let behind ← rowBehind row after
    let others ← rowsBehind after rows
    return if behind then row :: others else others

structure ResourcesPage where
  items : List ResourceRow
  truncated : Bool
  nextCursor : Option Str
  deriving DecidableEq

inductive ResourcesResponse
  | page (page : ResourcesPage)
  | invalidCursor
  deriving DecidableEq

def resourcesPage (capped : Nat) (visible : List ResourceRow) : ResourcesPage :=
  let kept := (paginate visible capped).1
  let truncated := (paginate visible capped).2
  ⟨kept, truncated, if truncated then kept.getLast?.map
    (fun row => encodeTsUuidCursor resourcesListTag row.createdAt row.id) else none⟩

section Listing

variable (interpreter : Interpreter) (unicode : Unicode)

def resourcesAfter : Option Str → Except CursorError (Option (DateTime × RowId))
  | none => .ok none
  | some [] => .ok none
  | some cursor => (decodeTsUuidCursor interpreter unicode resourcesListTag cursor).map some

def pageBehind (visible : List ResourceRow) : Option (DateTime × RowId) →
    Except ListResourcesFailure (List ResourceRow)
  | none => .ok visible
  | some after => rowsBehind after visible

def listResources (table : List ResourceRow) (viewerProjects : List String)
    (request : ResourcesListRequest) : Except ListResourcesFailure ResourcesResponse :=
  match resourcesAfter interpreter unicode request.cursor with
  | .error .invalidCursor => .ok .invalidCursor
  | .error .recursionError => .error .recursionError
  | .ok after =>
    (pageBehind (visibleRows table viewerProjects request.kind) after).map
      (fun visible => .page (resourcesPage (clampListLimit request.limit) visible))

def TooDeep (cursor : Str) : Prop :=
  (∀ c ∈ cursor, c < 128) ∧ ∃ raw, Base64.urlsafeDecode cursor = some raw ∧
    JsonText.NestsBeyond interpreter.nesting raw

/-- The token is of this tool, and names a time without a zone and an id. -/
def Naive (cursor : Str) : Prop :=
  (∀ c ∈ cursor, c < 128) ∧ ∃ raw members ts id t u, Base64.urlsafeDecode cursor = some raw ∧
    JsonText.loads interpreter.nesting raw = .ok (.object members) ∧
    JsonText.lookup members (str "t") = some (.text resourcesListTag) ∧
    JsonText.lookup members (str "k") = some (.array [.text ts, .text id]) ∧
    IsoTime.fromisoformat ts = some t ∧ UuidText.uuid unicode id = some u ∧ t.offset = none

variable {interpreter unicode}

theorem any_large_iff (cursor : Str) :
    cursor.any (fun c => decide (128 ≤ c)) = false ↔ ∀ c ∈ cursor, c < 128 := by
  rw [List.any_eq_false]
  constructor
  · intro small c inside
    have := small c inside
    simpa using this
  · intro small c inside
    have := small c inside
    simp
    omega

theorem asText_eq_some {v : Value} {s : Str} : asText v = some s ↔ v = .text s := by
  cases v <;> simp [asText]

theorem mapM_asText_iff : ∀ {elements : List Value} {parts : List Str},
    elements.mapM asText = some parts ↔ elements = parts.map .text := by
  intro elements
  induction elements with
  | nil =>
    intro parts
    cases parts <;> simp
  | cons v elements ih =>
    intro parts
    cases parts with
    | nil => simp [List.mapM_cons, Option.bind_eq_some_iff]
    | cons part parts => simp [List.mapM_cons, Option.bind_eq_some_iff, asText_eq_some, ih]

theorem cursorKey_eq_some_iff {toolTag : Str} {arity : Nat} {obj : Value} {parts : List Str} :
    cursorKey toolTag arity obj = some parts ↔ parts.length = arity ∧ ∃ members,
      obj = .object members ∧ JsonText.lookup members (str "t") = some (.text toolTag) ∧
      JsonText.lookup members (str "k") = some (.array (parts.map .text)) := by
  constructor
  · intro found
    cases obj with
    | object members =>
      rw [cursorKey] at found
      split at found
      · rename_i tag
        obtain ⟨v, under, text⟩ := Option.bind_eq_some_iff.1 tag
        rw [asText_eq_some.1 text] at under
        unfold keyParts at found
        split at found
        · rename_i elements key
          split at found
          · rename_i long
            have same := mapM_asText_iff.1 found
            rw [same] at key long
            exact ⟨by simpa using long, members, rfl, under, key⟩
          · cases found
        · cases found
      · cases found
    | _ => cases found
  · rintro ⟨long, members, rfl, tag, key⟩
    rw [cursorKey, tag, key, Option.bind_some, asText, if_pos rfl, keyParts, List.length_map,
      if_pos long, mapM_asText]

theorem decodeCursor_of_decoded {cursor : Str} {raw : List UInt8} (ascii : ∀ c ∈ cursor, c < 128)
    (decoded : Base64.urlsafeDecode cursor = some raw) (toolTag : Str) (arity : Nat) :
    decodeCursor interpreter toolTag cursor arity =
      (loadsToken interpreter raw).bind
        (fun obj => orInvalidCursor (cursorKey toolTag arity obj)) := by
  simp only [decodeCursor, (any_large_iff cursor).2 ascii, Bool.false_eq_true, if_false, decoded,
    orInvalidCursor]
  rfl

theorem decodeCursor_cases (toolTag cursor : Str) (arity : Nat) :
    (decodeCursor interpreter toolTag cursor arity = .error .recursionError ∧
      TooDeep interpreter cursor) ∨
    (decodeCursor interpreter toolTag cursor arity = .error .invalidCursor ∧
      ¬ TooDeep interpreter cursor) ∨
    ∃ raw obj parts, decodeCursor interpreter toolTag cursor arity = .ok parts ∧
      ¬ TooDeep interpreter cursor ∧ (∀ c ∈ cursor, c < 128) ∧
      Base64.urlsafeDecode cursor = some raw ∧
      JsonText.loads interpreter.nesting raw = .ok obj ∧ cursorKey toolTag arity obj = some parts := by
  by_cases large : cursor.any (fun c => decide (128 ≤ c)) = true
  · right
    left
    constructor
    · simp only [decodeCursor, large, if_true]
      rfl
    · intro deep
      rw [(any_large_iff cursor).2 deep.1] at large
      exact absurd large (by decide)
  · rw [Bool.not_eq_true] at large
    have ascii := (any_large_iff cursor).1 large
    cases decoded : Base64.urlsafeDecode cursor with
    | none =>
      right
      left
      refine ⟨?_, ?_⟩
      · simp only [decodeCursor, large, Bool.false_eq_true, if_false, decoded, orInvalidCursor]
        rfl
      · rintro ⟨_, raw, same, _⟩
        rw [decoded] at same
        cases same
    | some raw =>
      have onward := @decodeCursor_of_decoded interpreter cursor raw ascii decoded toolTag arity
      cases read : JsonText.loads interpreter.nesting raw with
      | error failure =>
        cases failure with
        | recursion =>
          left
          refine ⟨?_, ascii, raw, decoded, (JsonText.loads_deep_iff _ _).mp read⟩
          simp only [onward, loadsToken, read]
          rfl
        | invalid =>
          right
          left
          refine ⟨?_, ?_⟩
          · simp only [onward, loadsToken, read]
            rfl
          · rintro ⟨_, other, same, deep⟩
            rw [decoded] at same
            obtain rfl := Option.some.inj same
            rw [← JsonText.loads_deep_iff, read] at deep
            cases deep
      | ok obj =>
        have shallow : ¬ TooDeep interpreter cursor := by
          rintro ⟨_, other, same, deep⟩
          rw [decoded] at same
          obtain rfl := Option.some.inj same
          rw [← JsonText.loads_deep_iff, read] at deep
          cases deep
        right
        cases key : cursorKey toolTag arity obj with
        | none =>
          left
          refine ⟨?_, shallow⟩
          simp only [onward, loadsToken, read, Except.bind, key, orInvalidCursor]
        | some parts =>
          right
          refine ⟨raw, obj, parts, ?_, shallow, ascii, rfl, read, key⟩
          simp only [onward, loadsToken, read, Except.bind, key, orInvalidCursor]

theorem decodeCursor_raises_iff (toolTag cursor : Str) (arity : Nat) :
    decodeCursor interpreter toolTag cursor arity = .error .recursionError ↔
      TooDeep interpreter cursor := by
  rcases @decodeCursor_cases interpreter toolTag cursor arity with
    ⟨result, deep⟩ | ⟨result, shallow⟩ | ⟨_, _, _, result, shallow, _⟩
  · exact ⟨fun _ => deep, fun _ => result⟩
  · exact ⟨fun raised => absurd (result.symm.trans raised) nofun, fun deep => absurd deep shallow⟩
  · exact ⟨fun raised => absurd (result.symm.trans raised) nofun, fun deep => absurd deep shallow⟩

theorem orInvalidCursor_ne {α : Type} (found : Option α) :
    orInvalidCursor found ≠ .error .recursionError := by
  cases found <;> exact nofun

theorem decodeTsUuidCursor_raises_iff (toolTag cursor : Str) :
    decodeTsUuidCursor interpreter unicode toolTag cursor = .error .recursionError ↔
      TooDeep interpreter cursor := by
  rw [← decodeCursor_raises_iff toolTag cursor 2]
  unfold decodeTsUuidCursor
  cases result : decodeCursor interpreter toolTag cursor 2 with
  | error failure => simp [bind, Except.bind]
  | ok parts =>
    simp only [bind, Except.bind, reduceCtorEq, iff_false]
    exact orInvalidCursor_ne _

theorem rowBehind_zoned {row : ResourceRow} {after : DateTime × RowId}
    (zoned : after.1.offset ≠ none) : ∃ behind, rowBehind row after = .ok behind := by
  obtain ⟨x, x_eq⟩ := Option.isSome_iff_exists.1 row.zoned
  obtain ⟨y, y_eq⟩ := Option.ne_none_iff_exists'.1 zoned
  unfold rowBehind
  split
  · exact ⟨_, rfl⟩
  · rw [laterTime, x_eq, y_eq]
    exact ⟨_, rfl⟩

theorem rowBehind_naive {row : ResourceRow} {after : DateTime × RowId}
    (naive : after.1.offset = none) : rowBehind row after = .error .typeError := by
  obtain ⟨x, x_eq⟩ := Option.isSome_iff_exists.1 row.zoned
  have different : sameTime row.createdAt after.1 = false := by rw [sameTime, x_eq, naive]
  rw [rowBehind, different, if_neg Bool.false_ne_true, laterTime, x_eq, naive]

/-- All rows can be compared with a time that has a zone, and none with one that has none. -/
theorem rowsBehind_ok_iff (after : DateTime × RowId) (rows : List ResourceRow) :
    (∃ found, rowsBehind after rows = .ok found) ↔ (after.1.offset = none → rows = []) := by
  by_cases naive : after.1.offset = none
  · cases rows with
    | nil => simp [rowsBehind]
    | cons row rows => simp [rowsBehind, rowBehind_naive naive, naive, bind, Except.bind]
  · simp only [naive, false_implies, iff_true]
    induction rows with
    | nil => exact ⟨[], rfl⟩
    | cons row rows ih =>
      obtain ⟨behind, compared⟩ := @rowBehind_zoned row after naive
      obtain ⟨found, others⟩ := ih
      exact ⟨_, by simp only [rowsBehind, compared, others, bind, Except.bind]; rfl⟩

theorem plain_of_small {text : Str} (small : ∀ c ∈ text, c < 128) : Plain text := by
  intro c inside
  have := small c inside
  unfold JsonText.Scalar
  omega

theorem decodeCursor_pair {tag a b : Str} (plainTag : Plain tag) (plainA : Plain a)
    (plainB : Plain b) :
    decodeCursor interpreter tag (encodeCursor tag [a, b]) 2 = .ok [a, b] := by
  have plain : ∀ part ∈ [a, b], Plain part := by
    intro part inside
    simp only [List.mem_cons, List.not_mem_nil, or_false] at inside
    rcases inside with rfl | rfl
    · exact plainA
    · exact plainB
  exact decodeCursor_encodeCursor interpreter plainTag plain

theorem decodeTsUuidCursor_of_ok {tag cursor : Str} {parts : List Str}
    (read : decodeCursor interpreter tag cursor 2 = .ok parts) :
    decodeTsUuidCursor interpreter unicode tag cursor = orInvalidCursor (tsUuid unicode parts) := by
  unfold decodeTsUuidCursor
  rw [read]
  rfl

theorem decodeTsUuidCursor_encodeTsUuidCursor {tag : Str} (plainTag : Plain tag)
    (createdAt : DateTime) (rowId : RowId) :
    decodeTsUuidCursor interpreter unicode tag (encodeTsUuidCursor tag createdAt rowId) =
      .ok (createdAt, rowId) := by
  have read := @decodeCursor_pair interpreter tag createdAt.isoformat (UuidText.text rowId)
    plainTag (plain_of_small (IsoTime.small_isoformat createdAt))
    (plain_of_small (UuidText.small_text rowId))
  have typed : tsUuid unicode [createdAt.isoformat, UuidText.text rowId] =
      some (createdAt, rowId) := by
    rw [tsUuid, IsoTime.fromisoformat_isoformat, UuidText.uuid_text]
    rfl
  exact (decodeTsUuidCursor_of_ok read).trans (congrArg orInvalidCursor typed)

theorem tsUuid_eq_some_iff {parts : List Str} {after : DateTime × RowId} :
    tsUuid unicode parts = some after ↔ ∃ ts id, parts = [ts, id] ∧
      IsoTime.fromisoformat ts = some after.1 ∧ UuidText.uuid unicode id = some after.2 := by
  constructor
  · intro typed
    unfold tsUuid at typed
    split at typed
    · rename_i ts id
      obtain ⟨t, time, rest⟩ := Option.bind_eq_some_iff.1 typed
      obtain ⟨u, number, rfl⟩ := Option.map_eq_some_iff.1 rest
      exact ⟨ts, id, rfl, time, number⟩
    · cases typed
  · rintro ⟨ts, id, rfl, time, number⟩
    rw [tsUuid, time, number]
    rfl

theorem decodeCursor_answers_iff (toolTag cursor : Str) (arity : Nat) :
    ((∃ parts, decodeCursor interpreter toolTag cursor arity = .ok parts ∧ parts.length = arity) ∨
      decodeCursor interpreter toolTag cursor arity = .error .invalidCursor) ↔
      ¬ TooDeep interpreter cursor := by
  rcases @decodeCursor_cases interpreter toolTag cursor arity with
    ⟨result, deep⟩ | ⟨result, shallow⟩ | ⟨_, _, parts, result, shallow, _, _, _, key⟩
  · simp [result, deep]
  · simp [result, shallow]
  · simp [result, shallow, (cursorKey_eq_some_iff.1 key).1]

theorem decodeTsUuidCursor_answers_iff (toolTag cursor : Str) :
    ((∃ after, decodeTsUuidCursor interpreter unicode toolTag cursor = .ok after) ∨
      decodeTsUuidCursor interpreter unicode toolTag cursor = .error .invalidCursor) ↔
      ¬ TooDeep interpreter cursor := by
  rw [← @decodeTsUuidCursor_raises_iff interpreter unicode toolTag cursor]
  cases decodeTsUuidCursor interpreter unicode toolTag cursor with
  | ok after => simp
  | error failure => cases failure <;> simp

theorem naive_iff (cursor : Str) :
    Naive interpreter unicode cursor ↔ ∃ after,
      decodeTsUuidCursor interpreter unicode resourcesListTag cursor = .ok after ∧
      after.1.offset = none := by
  constructor
  · rintro ⟨ascii, raw, members, ts, id, t, u, decoded, read, tag, key, time, number, naive⟩
    have parts : decodeCursor interpreter resourcesListTag cursor 2 = .ok [ts, id] := by
      have checked : cursorKey resourcesListTag 2 (.object members) = some [ts, id] :=
        cursorKey_eq_some_iff.2 ⟨rfl, members, rfl, tag, key⟩
      simp only [decodeCursor_of_decoded ascii decoded, loadsToken, read, Except.bind, checked,
        orInvalidCursor]
    have typed : tsUuid unicode [ts, id] = some (t, u) :=
      tsUuid_eq_some_iff.2 ⟨ts, id, rfl, time, number⟩
    exact ⟨(t, u), (decodeTsUuidCursor_of_ok parts).trans (congrArg orInvalidCursor typed), naive⟩
  · rintro ⟨after, result, naive⟩
    rcases @decodeCursor_cases interpreter resourcesListTag cursor 2 with
      ⟨failed, _⟩ | ⟨failed, _⟩ | ⟨raw, obj, parts, found, _, ascii, decoded, read, checked⟩
    · rw [decodeTsUuidCursor, failed] at result
      cases result
    · rw [decodeTsUuidCursor, failed] at result
      cases result
    · rw [decodeTsUuidCursor_of_ok found] at result
      cases typed : tsUuid unicode parts with
      | none =>
        rw [typed] at result
        cases result
      | some value =>
        rw [typed, orInvalidCursor] at result
        obtain rfl := Except.ok.inj result
        obtain ⟨ts, id, rfl, time, number⟩ := tsUuid_eq_some_iff.1 typed
        obtain ⟨_, members, rfl, tag, key⟩ := cursorKey_eq_some_iff.1 checked
        exact ⟨ascii, raw, members, ts, id, value.1, value.2, decoded, read, tag, key, time,
          number, naive⟩

theorem pageBehind_ok_iff (visible : List ResourceRow) (after : Option (DateTime × RowId)) :
    (∃ found, pageBehind visible after = .ok found) ↔
      ∀ place ∈ after, place.1.offset = none → visible = [] := by
  cases after with
  | none => simp [pageBehind]
  | some place => simpa [pageBehind] using rowsBehind_ok_iff place visible

theorem listResources_ok_iff (table : List ResourceRow) (viewerProjects : List String)
    (request : ResourcesListRequest) :
    (∃ response, listResources interpreter unicode table viewerProjects request = .ok response) ↔
      ∀ cursor ∈ request.cursor, cursor ≠ [] → ¬ TooDeep interpreter cursor ∧
        (Naive interpreter unicode cursor →
          visibleRows table viewerProjects request.kind = []) := by
  have paged : ∀ after, resourcesAfter interpreter unicode request.cursor = .ok after →
      ((∃ response, listResources interpreter unicode table viewerProjects request =
          .ok response) ↔
        ∀ place ∈ after, place.1.offset = none →
          visibleRows table viewerProjects request.kind = []) := by
    intro after here
    rw [← pageBehind_ok_iff, listResources, here]
    dsimp only
    cases pageBehind (visibleRows table viewerProjects request.kind) after with
    | ok found => simp [Except.map]
    | error failure => simp [Except.map]
  rcases given : request.cursor with _ | cursor
  · have first := paged none (by rw [given]; rfl)
    simpa using first
  · by_cases empty : cursor = []
    · have first := paged none (by rw [given, empty]; rfl)
      simpa [empty] using first
    · have reads : resourcesAfter interpreter unicode (some cursor) =
          (decodeTsUuidCursor interpreter unicode resourcesListTag cursor).map some := by
        cases cursor with
        | nil => exact absurd rfl empty
        | cons c rest => rfl
      simp only [Option.mem_def, Option.some.injEq, forall_eq', ne_eq, empty, not_false_eq_true,
        forall_true_left]
      rw [naive_iff, ← @decodeTsUuidCursor_raises_iff interpreter unicode resourcesListTag cursor]
      cases decoded : decodeTsUuidCursor interpreter unicode resourcesListTag cursor with
      | ok after =>
        have here : resourcesAfter interpreter unicode request.cursor = .ok (some after) := by
          rw [given, reads, decoded]
          rfl
        rw [paged (some after) here]
        simp
      | error failure =>
        have here : resourcesAfter interpreter unicode request.cursor = .error failure := by
          rw [given, reads, decoded]
          rfl
        rw [listResources, here]
        cases failure <;> simp

theorem tooDeep_brackets (interpreter : Interpreter) :
    TooDeep interpreter (Base64.urlsafeEncode
      (JsonText.asciiBytes (List.replicate (interpreter.nesting + 1) 91))) := by
  refine ⟨fun c inside => ?_, _, Base64.urlsafeDecode_urlsafeEncode _,
    (JsonText.loads_deep_iff _ _).mp (JsonText.loads_deep interpreter.nesting)⟩
  exact Base64.lt_of_mem_urlsafeEncode inside

end Listing

/-- Every token gets an answer that is not too deep for the interpreter, and that names no time
without a zone while there is a row to compare it with. What is encoded is decoded. -/
theorem listCursor_answered_iff (interpreter : Interpreter) (unicode : Unicode) :
    (∀ toolTag cursor arity,
      ((∃ parts, decodeCursor interpreter toolTag cursor arity = .ok parts ∧
          parts.length = arity) ∨
        decodeCursor interpreter toolTag cursor arity = .error .invalidCursor) ↔
        ¬ TooDeep interpreter cursor) ∧
    (∀ toolTag cursor,
      ((∃ after, decodeTsUuidCursor interpreter unicode toolTag cursor = .ok after) ∨
        decodeTsUuidCursor interpreter unicode toolTag cursor = .error .invalidCursor) ↔
        ¬ TooDeep interpreter cursor) ∧
    (∀ table viewerProjects (request : ResourcesListRequest),
      (∃ response, listResources interpreter unicode table viewerProjects request =
          .ok response) ↔
        ∀ cursor ∈ request.cursor, cursor ≠ [] → ¬ TooDeep interpreter cursor ∧
          (Naive interpreter unicode cursor →
            visibleRows table viewerProjects request.kind = [])) ∧
    ∀ (toolTag : String) createdAt rowId,
      decodeTsUuidCursor interpreter unicode (str toolTag)
        (encodeTsUuidCursor (str toolTag) createdAt rowId) = .ok (createdAt, rowId) := by
  refine ⟨decodeCursor_answers_iff, decodeTsUuidCursor_answers_iff, listResources_ok_iff, ?_⟩
  intro toolTag createdAt rowId
  exact decodeTsUuidCursor_encodeTsUuidCursor (plain_of_string toolTag) createdAt rowId

section Escapes

def newYear : DateTime where
  year := 2026
  month := 1
  day := 1
  time := ⟨0, 0, 0, 0⟩
  offset := some 0
  yearRange := by decide
  monthRange := by decide
  dayRange := by decide
  timeRange := by decide
  offsetRange := by decide

def publicHost : ResourceRow where
  id := 7
  createdAt := newYear
  kind := "byo-host"
  ownerProject := none
  affinityAllowlist := []
  validates := true
  zoned := rfl

def zonelessCursor : Str :=
  encodeCursor resourcesListTag [str "2026-01-01T00:00:00", UuidText.text 7]

/-- A time without a zone gets past the decoding and stops the comparison; brackets alone stop the
decoding. -/
theorem zoneless_or_deep_escapes :
    listResources ⟨1000, by decide⟩ ⟨fun _ => false, fun _ => none⟩ [publicHost] []
      { cursor := some zonelessCursor } = .error .typeError ∧
    ∀ interpreter : Interpreter, ∃ cursor,
      decodeCursor interpreter resourcesListTag cursor 2 = .error .recursionError := by
  constructor
  · decide +kernel
  · intro interpreter
    exact ⟨_, (decodeCursor_raises_iff _ _ _).2 (tooDeep_brackets interpreter)⟩

end Escapes

end Kdive.Mcp
