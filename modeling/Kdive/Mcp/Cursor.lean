import Kdive.Lib.Base64
import Kdive.Lib.JsonRoundTrip

/-!
The opaque tokens of the list tools: the tag of the tool that made them and the sort key of the last
row it returned, as JSON in base64.
-/
namespace Kdive.Mcp
open JsonText (Str Value str lookup Interpreter)

/-- `InvalidCursor`, or the error of a stack that is used up, which nothing turns into it. -/
inductive CursorError
  | invalidCursor
  | recursionError
  deriving DecidableEq

def defaultListLimit : Int := 50

def maxListLimit : Int := 200

def clampListLimit (limit : Int) : Nat := (max 1 (min limit maxListLimit)).toNat

theorem clampListLimit_pos (limit : Int) : 0 < clampListLimit limit := by
  unfold clampListLimit
  omega

def paginate {α : Type} (rows : List α) (limit : Nat) : List α × Bool :=
  (rows.take limit, decide (limit < rows.length))

def payload (toolTag : Str) (keyParts : List Str) : Value :=
  .object [(str "t", .text toolTag), (str "k", .array (keyParts.map .text))]

def encodeCursor (toolTag : Str) (keyParts : List Str) : Str :=
  Base64.urlsafeEncode (JsonText.asciiBytes (JsonText.dumps [44] [58] (payload toolTag keyParts)))

def asText : Value → Option Str
  | .text s => some s
  | _ => none

def keyParts (arity : Nat) : Option Value → Option (List Str)
  | some (.array elements) => if elements.length = arity then elements.mapM asText else none
  | _ => none

def cursorKey (toolTag : Str) (arity : Nat) : Value → Option (List Str)
  | .object members =>
    if ((lookup members (str "t")).bind asText) = some toolTag then
      keyParts arity (lookup members (str "k"))
    else none
  | _ => none

def orInvalidCursor {α : Type} : Option α → Except CursorError α
  | some a => .ok a
  | none => .error .invalidCursor

def loadsToken (interpreter : Interpreter) (raw : List UInt8) : Except CursorError Value :=
  match JsonText.loads interpreter.nesting raw with
  | .ok v => .ok v
  | .error .invalid => .error .invalidCursor
  | .error .recursion => .error .recursionError

def decodeCursor (interpreter : Interpreter) (toolTag cursor : Str) (arity : Nat) :
    Except CursorError (List Str) := do
  -- `cursor.encode("ascii")`
  if cursor.any (fun c => decide (128 ≤ c)) then throw .invalidCursor
  let raw ← orInvalidCursor (Base64.urlsafeDecode cursor)
  let obj ← loadsToken interpreter raw
  orInvalidCursor (cursorKey toolTag arity obj)

def Plain (text : Str) : Prop := ∀ c ∈ text, JsonText.Scalar c

theorem separators_compact : JsonText.Separators [44] [58] where
  item := ⟨[], rfl, by simp⟩
  key := ⟨[], rfl, by simp⟩

theorem plain_of_string (s : String) : Plain (str s) := JsonText.scalar_str s

theorem fits_payload (interpreter : Interpreter) {toolTag : Str} {parts : List Str}
    (tag : Plain toolTag) (plain : ∀ part ∈ parts, Plain part) :
    JsonText.Fits interpreter.nesting (payload toolTag parts) := by
  obtain ⟨depth, room⟩ : ∃ d, interpreter.nesting = d + 1 + 1 :=
    ⟨interpreter.nesting - 2, by have := interpreter.room; omega⟩
  rw [room]
  intro m inside
  simp only [List.mem_cons, List.not_mem_nil, or_false] at inside
  rcases inside with rfl | rfl
  · exact ⟨plain_of_string "t", tag⟩
  · refine ⟨plain_of_string "k", ?_⟩
    intro v element
    obtain ⟨part, member, rfl⟩ := List.mem_map.1 element
    cases depth <;> exact plain part member

theorem mapM_asText (parts : List Str) : (parts.map Value.text).mapM asText = some parts := by
  induction parts with
  | nil => rfl
  | cons part parts ih => simp [List.mapM_cons, asText, ih]

theorem cursorKey_payload (toolTag : Str) (parts : List Str) :
    cursorKey toolTag parts.length (payload toolTag parts) = some parts := by
  have tag : lookup [(str "t", Value.text toolTag), (str "k", .array (parts.map .text))] (str "t") =
      some (.text toolTag) := by
    simp [lookup, str]
  have key : lookup [(str "t", Value.text toolTag), (str "k", .array (parts.map .text))] (str "k") =
      some (.array (parts.map .text)) := by
    simp [lookup]
  rw [payload, cursorKey, tag, key, Option.bind_some, asText, if_pos rfl, keyParts,
    List.length_map, if_pos rfl, mapM_asText]

theorem decodeCursor_encodeCursor (interpreter : Interpreter) {toolTag : Str} {parts : List Str}
    (tag : Plain toolTag) (plain : ∀ part ∈ parts, Plain part) :
    decodeCursor interpreter toolTag (encodeCursor toolTag parts) parts.length = .ok parts := by
  have ascii : (encodeCursor toolTag parts).any (fun c => decide (128 ≤ c)) = false := by
    rw [List.any_eq_false]
    intro c inside
    have := Base64.lt_of_mem_urlsafeEncode inside
    simp
    omega
  have read : loadsToken interpreter (JsonText.asciiBytes
      (JsonText.dumps [44] [58] (payload toolTag parts))) = .ok (payload toolTag parts) := by
    unfold loadsToken
    rw [JsonText.loads_dumps separators_compact (fits_payload interpreter tag plain)]
  unfold decodeCursor
  rw [ascii]
  simp only [Bool.false_eq_true, if_false, encodeCursor, Base64.urlsafeDecode_urlsafeEncode,
    orInvalidCursor, bind, Except.bind, read, cursorKey_payload]

end Kdive.Mcp
