import Mathlib.Data.Nat.Digits.Defs

/-!
The JSON text a dynamic language writes and reads: `dumps` escapes everything outside printable
ASCII, and `loads` decodes bytes in one of the Unicode encodings and reads one value from them. A
string is the list of its code points, lone surrogates among them. The reader takes the number of
containers it may nest as a parameter and fails in a way of its own beyond it.
-/
namespace JsonText

abbrev Str := List Nat

theorem lawful : LawfulBEq Str := inferInstance

inductive Value
  | null
  | bool (b : Bool)
  | int (n : Int)
  | float (literal : Str)
  | text (s : Str)
  | array (elements : List Value)
  | object (members : List (Str × Value))

def str (s : String) : Str := s.toList.map Char.toNat

section Writing

def hexDigit (n : Nat) : Nat := if n < 10 then 48 + n else 87 + n

def hex4 (n : Nat) : Str :=
  [hexDigit (n / 4096 % 16), hexDigit (n / 256 % 16), hexDigit (n / 16 % 16), hexDigit (n % 16)]

def highHalf (c : Nat) : Nat := 0xD800 + (c - 0x10000) / 1024 % 1024

def lowHalf (c : Nat) : Nat := 0xDC00 + c % 1024

def escape (c : Nat) : Str :=
  if c = 34 then [92, 34]
  else if c = 92 then [92, 92]
  else if c = 10 then [92, 110]
  else if c = 13 then [92, 114]
  else if c = 9 then [92, 116]
  else if c = 8 then [92, 98]
  else if c = 12 then [92, 102]
  else if 32 ≤ c ∧ c ≤ 126 then [c]
  else if c < 0x10000 then [92, 117] ++ hex4 c
  else [92, 117] ++ hex4 (highHalf c) ++ ([92, 117] ++ hex4 (lowHalf c))

def quoted (s : Str) : Str := [34] ++ s.flatMap escape ++ [34]

/-- `str` of a natural number. -/
def decimal (n : Nat) : Str := if n = 0 then [48] else (Nat.digits 10 n).reverse.map (48 + ·)

def intText : Int → Str
  | .ofNat n => decimal n
  | .negSucc n => [45] ++ decimal (n + 1)

mutual

def dumps (item key : Str) : Value → Str
  | .null => str "null"
  | .bool b => if b then str "true" else str "false"
  | .int n => intText n
  | .float literal => literal
  | .text s => quoted s
  | .array elements => [91] ++ dumpsElements item key elements ++ [93]
  | .object members => [123] ++ dumpsMembers item key members ++ [125]

def dumpsElements (item key : Str) : List Value → Str
  | [] => []
  | [v] => dumps item key v
  | v :: vs => dumps item key v ++ item ++ dumpsElements item key vs

def dumpsMembers (item key : Str) : List (Str × Value) → Str
  | [] => []
  | [(name, v)] => quoted name ++ key ++ dumps item key v
  | (name, v) :: members =>
    quoted name ++ key ++ dumps item key v ++ item ++ dumpsMembers item key members

end

end Writing

section Reading

inductive Failure
  | invalid
  | recursion
  deriving DecidableEq

def isBlank (c : Nat) : Bool := c == 32 || c == 9 || c == 10 || c == 13

def skipBlanks (text : Str) : Str := text.dropWhile isBlank

def hexValue (c : Nat) : Option Nat :=
  if 48 ≤ c ∧ c ≤ 57 then some (c - 48)
  else if 97 ≤ c ∧ c ≤ 102 then some (c - 87)
  else if 65 ≤ c ∧ c ≤ 70 then some (c - 55)
  else none

def hexValue4 (a b c d : Nat) : Option Nat := do
  let a ← hexValue a
  let b ← hexValue b
  let c ← hexValue c
  let d ← hexValue d
  return a * 4096 + b * 256 + c * 16 + d

def isHigh (c : Nat) : Bool := decide (0xD800 ≤ c) && decide (c ≤ 0xDBFF)

def isLow (c : Nat) : Bool := decide (0xDC00 ≤ c) && decide (c ≤ 0xDFFF)

def joined (high low : Nat) : Nat := 0x10000 + (high - 0xD800) * 1024 + (low - 0xDC00)

def simpleEscape (c : Nat) : Option Nat :=
  if c = 34 ∨ c = 92 ∨ c = 47 then some c
  else if c = 98 then some 8
  else if c = 102 then some 12
  else if c = 110 then some 10
  else if c = 114 then some 13
  else if c = 116 then some 9
  else none

def lowAhead : Str → Option (Nat × Str)
  | 92 :: 117 :: a :: b :: c :: d :: rest =>
    (hexValue4 a b c d).bind (fun low => if isLow low then some (low, rest) else none)
  | _ => none

/-- The next character of a string in quotes: its code point, if the text goes on in the string, and
the rest of the text. -/
def nextChar : Str → Option (Option Nat × Str)
  | [] => none
  | 34 :: rest => some (none, rest)
  | 92 :: 117 :: a :: b :: c :: d :: rest =>
    (hexValue4 a b c d).map (fun code =>
      match if isHigh code then lowAhead rest else none with
      | some (low, rest) => (some (joined code low), rest)
      | none => (some code, rest))
  | 92 :: c :: rest => (simpleEscape c).map (fun code => (some code, rest))
  | c :: rest => if c ≤ 31 ∨ c = 92 then none else some (some c, rest)

def scanString : Nat → Str → Option (Str × Str)
  | 0, _ => none
  | turns + 1, text =>
    (nextChar text).bind (fun next =>
      match next.1 with
      | none => some ([], next.2)
      | some c => (scanString turns next.2).map (fun found => (c :: found.1, found.2)))

def isDigit (c : Nat) : Bool := decide (48 ≤ c) && decide (c ≤ 57)

def natOf (digits : Str) : Nat := digits.foldl (fun n c => n * 10 + (c - 48)) 0

/-- `sys.int_info.default_max_str_digits`. -/
def maxDigits : Nat := 4300

def wholePart : Str → Option (Str × Str)
  | [] => none
  | c :: rest =>
    if c = 48 then some ([48], rest)
    else if isDigit c then some (c :: rest.takeWhile isDigit, rest.dropWhile isDigit)
    else none

def fraction : Str → Str × Str
  | 46 :: c :: rest =>
    if isDigit c then (46 :: c :: rest.takeWhile isDigit, rest.dropWhile isDigit)
    else ([], 46 :: c :: rest)
  | text => ([], text)

def exponent : Str → Str × Str
  | e :: s :: c :: rest =>
    if (e = 101 ∨ e = 69) ∧ (s = 43 ∨ s = 45) ∧ isDigit c then
      (e :: s :: c :: rest.takeWhile isDigit, rest.dropWhile isDigit)
    else if (e = 101 ∨ e = 69) ∧ isDigit s then
      (e :: s :: (c :: rest).takeWhile isDigit, (c :: rest).dropWhile isDigit)
    else ([], e :: s :: c :: rest)
  | [e, s] => if (e = 101 ∨ e = 69) ∧ isDigit s then ([e, s], []) else ([], [e, s])
  | text => ([], text)

def scanUnsigned (negative : Bool) (text : Str) : Option (Value × Str) :=
  (wholePart text).bind (fun whole =>
    let frac := fraction whole.2
    let exp := exponent frac.2
    if frac.1.isEmpty && exp.1.isEmpty then
      if maxDigits < whole.1.length then none
      else some (.int (if negative then -(natOf whole.1 : Int) else natOf whole.1), exp.2)
    else
      some (.float ((if negative then [45] else []) ++ whole.1 ++ frac.1 ++ exp.1), exp.2))

def scanNumber : Str → Option (Value × Str)
  | 45 :: rest => scanUnsigned true rest
  | text => scanUnsigned false text

def behind (word : Str) (text : Str) : Option Str :=
  if word <+: text then some (text.drop word.length) else none

def words : List (Str × Value) :=
  [(str "null", .null), (str "true", .bool true), (str "false", .bool false),
    (str "NaN", .float (str "NaN")), (str "Infinity", .float (str "Infinity")),
    (str "-Infinity", .float (str "-Infinity"))]

def scanWord (text : Str) : Option (Value × Str) :=
  words.findSome? (fun word => (behind word.1 text).map (fun rest => (word.2, rest)))

def orInvalid {α : Type} : Option α → Except Failure α
  | some a => .ok a
  | none => .error .invalid

def afterItem (closing : Nat) (text : Str) : Option (Bool × Str) :=
  match skipBlanks text with
  | [] => none
  | c :: rest =>
    if c = closing then some (true, rest)
    else if c = 44 then some (false, skipBlanks rest)
    else none

def scanElements (scan : Str → Except Failure (Value × Str)) :
    Nat → Str → Except Failure (List Value × Str)
  | 0, _ => .error .invalid
  | turns + 1, text => do
    let item ← scan text
    let next ← orInvalid (afterItem 93 item.2)
    if next.1 then return ([item.1], next.2)
    let others ← scanElements scan turns next.2
    return (item.1 :: others.1, others.2)

def scanName : Str → Option (Str × Str)
  | 34 :: rest =>
    (scanString (rest.length + 1) rest).bind (fun name =>
      match skipBlanks name.2 with
      | 58 :: rest => some (name.1, skipBlanks rest)
      | _ => none)
  | _ => none

def scanMembers (scan : Str → Except Failure (Value × Str)) :
    Nat → Str → Except Failure (List (Str × Value) × Str)
  | 0, _ => .error .invalid
  | turns + 1, text => do
    let name ← orInvalid (scanName text)
    let item ← scan name.2
    let next ← orInvalid (afterItem 125 item.2)
    if next.1 then return ([(name.1, item.1)], next.2)
    let others ← scanMembers scan turns next.2
    return ((name.1, item.1) :: others.1, others.2)

def scanArray (scan : Str → Except Failure (Value × Str)) (text : Str) :
    Except Failure (Value × Str) :=
  match skipBlanks text with
  | 93 :: rest => .ok (.array [], rest)
  | text => (scanElements scan (text.length + 1) text).map (fun found => (.array found.1, found.2))

def scanObject (scan : Str → Except Failure (Value × Str)) (text : Str) :
    Except Failure (Value × Str) :=
  match skipBlanks text with
  | 125 :: rest => .ok (.object [], rest)
  | text => (scanMembers scan (text.length + 1) text).map (fun found => (.object found.1, found.2))

/-- `scan_once`: one value at the front of the text, with at most `depth` containers in one
another. -/
def scanOnce : Nat → Str → Except Failure (Value × Str)
  | _, [] => .error .invalid
  | depth, c :: rest =>
    if c = 34 then
      (orInvalid (scanString (rest.length + 1) rest)).map (fun found => (.text found.1, found.2))
    else if c = 123 ∨ c = 91 then
      match depth with
      | 0 => .error .recursion
      | depth + 1 =>
        if c = 123 then scanObject (scanOnce depth) rest else scanArray (scanOnce depth) rest
    else orInvalid ((scanWord (c :: rest)).or (scanNumber (c :: rest)))

/-- `JSONDecoder.decode`. -/
def loadsText (depth : Nat) (text : Str) : Except Failure Value := do
  let found ← scanOnce depth (skipBlanks text)
  if (skipBlanks found.2).isEmpty then return found.1 else .error .invalid

/-- `dict.get`, where a name that is given twice has its last value. -/
def lookup (members : List (Str × Value)) (name : Str) : Option Value :=
  (members.reverse.find? (fun m => decide (m.1 = name))).map (·.2)

structure Interpreter where
  nesting : Nat
  room : 2 ≤ nesting

end Reading

section Nesting

/-- A complete value stands at the front of the text, however deep it is. -/
def Complete (text : Str) (found : Value × Str) : Prop := ∃ depth, scanOnce depth text = .ok found

/-- One of the items of a container begins with such a text, complete values standing before it. -/
def InItems (start : Str → Option Str) (closing : Nat) (P : Str → Prop) : Nat → Str → Prop
  | 0, _ => False
  | turns + 1, text => ∃ value, start text = some value ∧
      (P value ∨ ∃ found next, Complete value found ∧ afterItem closing found.2 = some (false, next) ∧
        InItems start closing P turns next)

def valueStart (text : Str) : Option Str := (scanName text).map (·.2)

/-- So many containers are opened in one another at the front of the text. -/
def Nests : Nat → Str → Prop
  | 0, _ => True
  | n + 1, text => ∃ c rest, text = c :: rest ∧
      (c = 91 ∧ (n = 0 ∨ InItems some 93 (Nests n) ((skipBlanks rest).length + 1) (skipBlanks rest)) ∨
        c = 123 ∧
          (n = 0 ∨ InItems valueStart 125 (Nests n) ((skipBlanks rest).length + 1) (skipBlanks rest)))

variable {α β : Type}

/-- What the elements of an array and the members of an object have in common. -/
def scanItem (scan : Str → Except Failure (Value × Str)) (closing : Nat) (make : Value → β)
    (more : Str → Except Failure (List β × Str)) (value : Str) : Except Failure (List β × Str) := do
  let item ← scan value
  let next ← orInvalid (afterItem closing item.2)
  if next.1 then return ([make item.1], next.2)
  let others ← more next.2
  return (make item.1 :: others.1, others.2)

/-- The one scanner gives up where the other may go on, and otherwise they agree. -/
def Below (scan scan' : Str → Except Failure α) : Prop :=
  ∀ text, scan text = .error .recursion ∨ scan text = scan' text

theorem map_recursion_iff (scanned : Except Failure α) (f : α → β) :
    scanned.map f = .error .recursion ↔ scanned = .error .recursion := by
  cases scanned with
  | error e => exact ⟨fun deep => (by cases deep; rfl), fun deep => (by cases deep; rfl)⟩
  | ok found => exact iff_of_false (fun deep => (by cases deep)) (fun deep => (by cases deep))

theorem map_below {scanned scanned' : Except Failure α} (f : α → β)
    (below : scanned = .error .recursion ∨ scanned = scanned') :
    scanned.map f = .error .recursion ∨ scanned.map f = scanned'.map f := by
  rcases below with deep | same
  · exact .inl ((map_recursion_iff scanned f).mpr deep)
  · exact .inr (by rw [same])

section Items

variable {scan scan' : Str → Except Failure (Value × Str)}

theorem scanItem_below (below : Below scan scan') (closing : Nat) (make : Value → β)
    {more more' : Str → Except Failure (List β × Str)} (later : Below more more') :
    Below (scanItem scan closing make more) (scanItem scan' closing make more') := by
  intro value
  unfold scanItem
  rcases below value with deep | same
  · rw [deep]
    exact .inl rfl
  · rw [same]
    cases scan' value with
    | error e => exact .inr rfl
    | ok item =>
      dsimp only [bind, Except.bind]
      cases afterItem closing item.2 with
      | none => exact .inr rfl
      | some next =>
        dsimp only [orInvalid]
        split
        · exact .inr rfl
        · rcases later next.2 with deep | same
          · rw [deep]
            exact .inl rfl
          · rw [same]
            exact .inr rfl

theorem scanElements_below (below : Below scan scan') (turns : Nat) :
    Below (scanElements scan turns) (scanElements scan' turns) := by
  induction turns with
  | zero => exact fun _ => .inr rfl
  | succ turns ih => exact scanItem_below below 93 id ih

theorem scanMembers_below (below : Below scan scan') (turns : Nat) :
    Below (scanMembers scan turns) (scanMembers scan' turns) := by
  induction turns with
  | zero => exact fun _ => .inr rfl
  | succ turns ih =>
    intro text
    rw [scanMembers, scanMembers]
    cases scanName text with
    | none => exact .inr rfl
    | some name => exact scanItem_below below 125 (Prod.mk name.1) ih name.2

theorem scanArray_below (below : Below scan scan') : Below (scanArray scan) (scanArray scan') := by
  intro text
  rw [scanArray, scanArray]
  split
  · exact .inr rfl
  · exact map_below _ (scanElements_below below _ _)

theorem scanObject_below (below : Below scan scan') : Below (scanObject scan) (scanObject scan') := by
  intro text
  rw [scanObject, scanObject]
  split
  · exact .inr rfl
  · exact map_below _ (scanMembers_below below _ _)

end Items

theorem scanOnce_flat {c : Nat} (square : c ≠ 91) (brace : c ≠ 123) (depth : Nat) (rest : Str) :
    scanOnce depth (c :: rest) = scanOnce 0 (c :: rest) ∧
      scanOnce depth (c :: rest) ≠ .error .recursion := by
  have none : ¬ (c = 123 ∨ c = 91) := by
    rintro (is | is)
    · exact brace is
    · exact square is
  rw [scanOnce.eq_def depth, scanOnce.eq_def 0]
  dsimp only
  by_cases quote : c = 34
  · rw [if_pos quote, if_pos quote]
    refine ⟨rfl, ?_⟩
    cases scanString (rest.length + 1) rest <;> exact fun deep => (by cases deep)
  · rw [if_neg quote, if_neg quote, if_neg none, if_neg none]
    refine ⟨rfl, ?_⟩
    cases (scanWord (c :: rest)).or (scanNumber (c :: rest)) <;> exact fun deep => (by cases deep)

theorem scanOnce_below {depth deeper : Nat} (le : depth ≤ deeper) :
    Below (scanOnce depth) (scanOnce deeper) := by
  intro text
  induction depth generalizing deeper text with
  | zero =>
    cases text with
    | nil => cases deeper <;> exact .inr rfl
    | cons c rest =>
      by_cases square : c = 91
      · rw [square]
        exact .inl rfl
      · by_cases brace : c = 123
        · rw [brace]
          exact .inl rfl
        · exact .inr (scanOnce_flat square brace deeper rest).1.symm
  | succ depth ih =>
    obtain ⟨deeper, rfl⟩ : ∃ n, deeper = n + 1 := ⟨deeper - 1, by omega⟩
    have below : Below (scanOnce depth) (scanOnce deeper) := ih (Nat.le_of_succ_le_succ le)
    cases text with
    | nil => exact .inr rfl
    | cons c rest =>
      by_cases square : c = 91
      · rw [square]
        exact scanArray_below below rest
      · by_cases brace : c = 123
        · rw [brace]
          exact scanObject_below below rest
        · rw [(scanOnce_flat square brace (depth + 1) rest).1,
            (scanOnce_flat square brace (deeper + 1) rest).1]
          exact .inr rfl

theorem Complete.scanned {text : Str} {found : Value × Str} (reads : Complete text found) (depth : Nat) :
    scanOnce depth text = .error .recursion ∨ scanOnce depth text = .ok found := by
  obtain ⟨other, scanned⟩ := reads
  rcases Nat.le_total depth other with le | le
  · rw [← scanned]
    exact scanOnce_below le text
  · rcases scanOnce_below le text with deep | same
    · rw [scanned] at deep
      cases deep
    · exact .inr (same.symm.trans scanned)

theorem InItems.congr {start : Str → Option Str} {closing : Nat} {P Q : Str → Prop}
    (same : ∀ text, P text ↔ Q text) (turns : Nat) (text : Str) :
    InItems start closing P turns text ↔ InItems start closing Q turns text := by
  induction turns generalizing text with
  | zero => exact Iff.rfl
  | succ turns ih => simp only [InItems, same, ih]

theorem scanItem_deep_iff (depth closing : Nat) (make : Value → β)
    (more : Str → Except Failure (List β × Str)) (value : Str) :
    scanItem (scanOnce depth) closing make more value = .error .recursion ↔
      scanOnce depth value = .error .recursion ∨
        ∃ found next, Complete value found ∧ afterItem closing found.2 = some (false, next) ∧
          more next = .error .recursion := by
  unfold scanItem
  constructor
  · intro deep
    cases scanned : scanOnce depth value with
    | error e =>
      rw [scanned] at deep
      cases deep
      exact .inl rfl
    | ok item =>
      rw [scanned] at deep
      dsimp only [bind, Except.bind] at deep
      cases behind : afterItem closing item.2 with
      | none =>
        rw [behind] at deep
        cases deep
      | some next =>
        rw [behind] at deep
        dsimp only [orInvalid] at deep
        obtain ⟨closed, next⟩ := next
        cases closed with
        | true => cases deep
        | false =>
          refine .inr ⟨item, next, ⟨depth, scanned⟩, behind, ?_⟩
          cases others : more next with
          | error e =>
            simp only [others] at deep
            exact deep
          | ok others' =>
            simp only [others] at deep
            cases deep
  · rintro (deep | ⟨found, next, reads, behind, later⟩)
    · rw [deep]
      rfl
    · rcases reads.scanned depth with deep | scanned
      · rw [deep]
        rfl
      · rw [scanned]
        dsimp only [bind, Except.bind]
        rw [behind]
        dsimp only [orInvalid]
        simp only [later, Bool.false_eq_true, if_false]

theorem scanElements_deep_iff (depth turns : Nat) (text : Str) :
    scanElements (scanOnce depth) turns text = .error .recursion ↔
      InItems some 93 (fun text => scanOnce depth text = .error .recursion) turns text := by
  induction turns generalizing text with
  | zero => exact iff_of_false (fun deep => (by cases deep)) id
  | succ turns ih =>
    refine (scanItem_deep_iff depth 93 id (scanElements (scanOnce depth) turns) text).trans ?_
    simp only [InItems, Option.some.injEq, exists_eq_left', ih]

theorem scanMembers_deep_iff (depth turns : Nat) (text : Str) :
    scanMembers (scanOnce depth) turns text = .error .recursion ↔
      InItems valueStart 125 (fun text => scanOnce depth text = .error .recursion) turns text := by
  induction turns generalizing text with
  | zero => exact iff_of_false (fun deep => (by cases deep)) id
  | succ turns ih =>
    rw [scanMembers, InItems, valueStart]
    cases scanName text with
    | none => exact iff_of_false (fun deep => (by cases deep)) (by rintro ⟨_, none, _⟩; cases none)
    | some name =>
      refine (scanItem_deep_iff depth 125 (Prod.mk name.1) (scanMembers (scanOnce depth) turns)
        name.2).trans ?_
      simp only [Option.map_some, Option.some.injEq, exists_eq_left', ih]

theorem scanOnce_closing (depth : Nat) (rest : Str) : scanOnce depth (93 :: rest) = .error .invalid := by
  rw [(scanOnce_flat (by decide) (by decide) depth rest).1]
  simp [scanOnce, scanWord, words, behind, str, scanNumber, scanUnsigned, wholePart, isDigit, orInvalid]

theorem scanArray_deep_iff (depth : Nat) (rest : Str) :
    scanArray (scanOnce depth) rest = .error .recursion ↔
      InItems some 93 (fun text => scanOnce depth text = .error .recursion)
        ((skipBlanks rest).length + 1) (skipBlanks rest) := by
  rw [scanArray]
  split
  · rename_i after closed
    refine iff_of_false (fun deep => (by cases deep)) ?_
    rw [closed, InItems]
    rintro ⟨value, begins, (deep | ⟨found, next, ⟨other, reads⟩, -⟩)⟩
    · rw [← Option.some.inj begins, scanOnce_closing] at deep
      cases deep
    · rw [← Option.some.inj begins, scanOnce_closing] at reads
      cases reads
  · rw [map_recursion_iff, scanElements_deep_iff]

theorem scanObject_deep_iff (depth : Nat) (rest : Str) :
    scanObject (scanOnce depth) rest = .error .recursion ↔
      InItems valueStart 125 (fun text => scanOnce depth text = .error .recursion)
        ((skipBlanks rest).length + 1) (skipBlanks rest) := by
  rw [scanObject]
  split
  · rename_i after closed
    refine iff_of_false (fun deep => (by cases deep)) ?_
    rw [closed, InItems]
    rintro ⟨value, begins, -⟩
    cases begins
  · rw [map_recursion_iff, scanMembers_deep_iff]

theorem nests_succ_iff (n c : Nat) (rest : Str) : Nests (n + 1) (c :: rest) ↔
    c = 91 ∧ (n = 0 ∨ InItems some 93 (Nests n) ((skipBlanks rest).length + 1) (skipBlanks rest)) ∨
      c = 123 ∧
        (n = 0 ∨ InItems valueStart 125 (Nests n) ((skipBlanks rest).length + 1) (skipBlanks rest)) := by
  constructor
  · rintro ⟨d, after, same, inside⟩
    obtain ⟨rfl, rfl⟩ := List.cons.inj same
    exact inside
  · exact fun inside => ⟨c, rest, rfl, inside⟩

/-- The scanner gives up exactly where one container more is opened than it may enter. -/
theorem scanOnce_deep_iff (depth : Nat) (text : Str) :
    scanOnce depth text = .error .recursion ↔ Nests (depth + 1) text := by
  induction depth generalizing text with
  | zero =>
    cases text with
    | nil => exact iff_of_false (fun deep => (by cases deep)) (by rintro ⟨_, _, same, _⟩; cases same)
    | cons c rest =>
      rw [nests_succ_iff]
      by_cases square : c = 91
      · subst square
        exact iff_of_true rfl (.inl ⟨rfl, .inl rfl⟩)
      · by_cases brace : c = 123
        · subst brace
          exact iff_of_true rfl (.inr ⟨rfl, .inl rfl⟩)
        · exact iff_of_false (scanOnce_flat square brace 0 rest).2 (by simp [square, brace])
  | succ depth ih =>
    cases text with
    | nil => exact iff_of_false (fun deep => (by cases deep)) (by rintro ⟨_, _, same, _⟩; cases same)
    | cons c rest =>
      rw [nests_succ_iff]
      by_cases square : c = 91
      · subst square
        refine (scanArray_deep_iff depth rest).trans ?_
        rw [InItems.congr ih]
        simp
      · by_cases brace : c = 123
        · subst brace
          refine (scanObject_deep_iff depth rest).trans ?_
          rw [InItems.congr ih]
          simp
        · exact iff_of_false (scanOnce_flat square brace (depth + 1) rest).2 (by simp [square, brace])

theorem loadsText_deep_iff (depth : Nat) (text : Str) :
    loadsText depth text = .error .recursion ↔ Nests (depth + 1) (skipBlanks text) := by
  rw [← scanOnce_deep_iff, loadsText]
  cases scanOnce depth (skipBlanks text) with
  | error e => exact ⟨fun deep => (by cases deep; rfl), fun deep => (by cases deep; rfl)⟩
  | ok found =>
    refine iff_of_false ?_ (fun deep => (by cases deep))
    dsimp only [bind, Except.bind]
    split <;> exact fun deep => (by cases deep)

end Nesting

section Bytes

inductive Encoding
  | utf8
  | utf8Sig
  | utf16
  | utf16be
  | utf16le
  | utf32
  | utf32be
  | utf32le
  deriving DecidableEq

def detectEncoding (b : List Nat) : Encoding :=
  if [0, 0, 0xFE, 0xFF] <+: b ∨ [0xFF, 0xFE, 0, 0] <+: b then .utf32
  else if [0xFE, 0xFF] <+: b ∨ [0xFF, 0xFE] <+: b then .utf16
  else if [0xEF, 0xBB, 0xBF] <+: b then .utf8Sig
  else match b with
    | [b0, b1] => if b0 = 0 then .utf16be else if b1 = 0 then .utf16le else .utf8
    | b0 :: b1 :: b2 :: b3 :: _ =>
      if b0 = 0 then if b1 ≠ 0 then .utf16be else .utf32be
      else if b1 = 0 then if b2 ≠ 0 ∨ b3 ≠ 0 then .utf16le else .utf32le
      else .utf8
    | _ => .utf8

def isTail (b : Nat) : Prop := 0x80 ≤ b ∧ b ≤ 0xBF

instance (b : Nat) : Decidable (isTail b) := by unfold isTail; infer_instance

def nextUtf8 : List Nat → Option (Nat × List Nat)
  | [] => none
  | a :: rest =>
    if a < 0x80 then some (a, rest)
    else match rest with
      | b :: rest =>
        if 0xC2 ≤ a ∧ a ≤ 0xDF ∧ isTail b then some (a % 32 * 64 + b % 64, rest)
        else match rest with
          | c :: rest =>
            if 0xE0 ≤ a ∧ a ≤ 0xEF ∧ isTail b ∧ isTail c ∧ (a = 0xE0 → 0xA0 ≤ b) then
              some (a % 16 * 4096 + b % 64 * 64 + c % 64, rest)
            else match rest with
              | d :: rest =>
                if 0xF0 ≤ a ∧ a ≤ 0xF4 ∧ isTail b ∧ isTail c ∧ isTail d ∧ (a = 0xF0 → 0x90 ≤ b) ∧
                    (a = 0xF4 → b ≤ 0x8F) then
                  some (a % 8 * 262144 + b % 64 * 4096 + c % 64 * 64 + d % 64, rest)
                else none
              | [] => none
          | [] => none
      | [] => none

def nextUtf16 (unit : Nat → Nat → Nat) : List Nat → Option (Nat × List Nat)
  | a :: b :: c :: d :: rest =>
    if isHigh (unit a b) && isLow (unit c d) then some (joined (unit a b) (unit c d), rest)
    else some (unit a b, c :: d :: rest)
  | a :: b :: rest => some (unit a b, rest)
  | _ => none

def nextUtf32 (unit : Nat → Nat → Nat → Nat → Nat) : List Nat → Option (Nat × List Nat)
  | a :: b :: c :: d :: rest => if unit a b c d < 0x110000 then some (unit a b c d, rest) else none
  | _ => none

def decodeAll (next : List Nat → Option (Nat × List Nat)) : Nat → List Nat → Option Str
  | _, [] => some []
  | 0, _ => none
  | turns + 1, bytes =>
    (next bytes).bind (fun found => (decodeAll next turns found.2).map (found.1 :: ·))

def bigUnit (a b : Nat) : Nat := a * 256 + b

def littleUnit (a b : Nat) : Nat := b * 256 + a

def bigWide (a b c d : Nat) : Nat := bigUnit a b * 65536 + bigUnit c d

def littleWide (a b c d : Nat) : Nat := littleUnit c d * 65536 + littleUnit a b

/-- `bytes.decode` in one of these encodings, with the handler that lets surrogates pass. -/
def decodeBytes (b : List Nat) : Encoding → Option Str
  | .utf8 => decodeAll nextUtf8 b.length b
  | .utf8Sig => decodeAll nextUtf8 b.length (b.drop 3)
  | .utf16 =>
    decodeAll (nextUtf16 (if [0xFE, 0xFF] <+: b then bigUnit else littleUnit)) b.length (b.drop 2)
  | .utf16be => decodeAll (nextUtf16 bigUnit) b.length b
  | .utf16le => decodeAll (nextUtf16 littleUnit) b.length b
  | .utf32 =>
    decodeAll (nextUtf32 (if [0, 0, 0xFE, 0xFF] <+: b then bigWide else littleWide)) b.length
      (b.drop 4)
  | .utf32be => decodeAll (nextUtf32 bigWide) b.length b
  | .utf32le => decodeAll (nextUtf32 littleWide) b.length b

def loads (depth : Nat) (bytes : List UInt8) : Except Failure Value :=
  let b := bytes.map UInt8.toNat
  match decodeBytes b (detectEncoding b) with
  | none => .error .invalid
  | some text => loadsText depth text

/-- The bytes are a text that opens more than so many containers in one another. -/
def NestsBeyond (depth : Nat) (bytes : List UInt8) : Prop :=
  ∃ text, decodeBytes (bytes.map UInt8.toNat) (detectEncoding (bytes.map UInt8.toNat)) = some text ∧
    Nests (depth + 1) (skipBlanks text)

theorem loads_deep_iff (depth : Nat) (bytes : List UInt8) :
    loads depth bytes = .error .recursion ↔ NestsBeyond depth bytes := by
  rw [loads, NestsBeyond]
  cases decodeBytes (bytes.map UInt8.toNat) (detectEncoding (bytes.map UInt8.toNat)) with
  | none => exact iff_of_false (fun deep => (by cases deep)) (by rintro ⟨text, none, -⟩; cases none)
  | some text =>
    dsimp only
    rw [loadsText_deep_iff]
    constructor
    · exact fun deep => ⟨text, rfl, deep⟩
    · rintro ⟨other, same, deep⟩
      rw [Option.some.inj same]
      exact deep

def asciiBytes (text : Str) : List UInt8 := text.map UInt8.ofNat

theorem toNat_asciiBytes {text : Str} (ascii : ∀ c ∈ text, c < 128) :
    (asciiBytes text).map UInt8.toNat = text := by
  unfold asciiBytes
  rw [List.map_map]
  conv_rhs => rw [← List.map_id text]
  apply List.map_congr_left
  intro c inside
  have small := ascii c inside
  simp only [Function.comp_apply, UInt8.toNat_ofNat', id_eq]
  omega

theorem detectEncoding_ascii {text : Str} (ascii : ∀ c ∈ text, c < 128)
    (written : ∀ c ∈ text, c ≠ 0) : detectEncoding text = .utf8 := by
  have marked : ∀ {mark : Nat} {others : Str}, 128 ≤ mark → ¬ (mark :: others) <+: text := by
    intro mark others large first
    have := ascii mark (first.subset List.mem_cons_self)
    omega
  have zero : ¬ [0, 0, 0xFE, 0xFF] <+: text := fun first =>
    written 0 (first.subset List.mem_cons_self) rfl
  unfold detectEncoding
  rw [if_neg (by simp [zero, marked]), if_neg (by simp [marked]), if_neg (marked (by decide))]
  split
  · simp_all
  · simp_all
  · rfl

theorem decodeAll_ascii {text : Str} (ascii : ∀ c ∈ text, c < 128) :
    ∀ {turns : Nat}, text.length ≤ turns → decodeAll nextUtf8 turns text = some text := by
  induction text with
  | nil =>
    intro turns _
    cases turns <;> rfl
  | cons c text ih =>
    intro turns enough
    obtain ⟨turns, rfl⟩ : ∃ n, turns = n + 1 := ⟨turns - 1, by simp at enough; omega⟩
    have others := @ih (fun d inside => ascii d (List.mem_cons_of_mem _ inside)) turns
      (by simp at enough; omega)
    have first : nextUtf8 (c :: text) = some (c, text) := by
      simp [nextUtf8, ascii c List.mem_cons_self]
    simp [decodeAll, first, others]

theorem loads_ascii (depth : Nat) {text : Str} (ascii : ∀ c ∈ text, c < 128)
    (written : ∀ c ∈ text, c ≠ 0) : loads depth (asciiBytes text) = loadsText depth text := by
  unfold loads
  simp only [toNat_asciiBytes ascii, detectEncoding_ascii ascii written, decodeBytes,
    decodeAll_ascii ascii (Nat.le_refl _)]

theorem scanOnce_deep (depth : Nat) :
    scanOnce depth (List.replicate (depth + 1) 91) = .error .recursion := by
  induction depth with
  | zero => rfl
  | succ depth ih =>
    rw [List.replicate_succ, scanOnce, if_neg (by decide), if_pos (.inr rfl), if_neg (by decide)]
    rw [List.replicate_succ] at ih ⊢
    have first : skipBlanks (91 :: List.replicate depth 91) = 91 :: List.replicate depth 91 := by
      simp [skipBlanks, isBlank]
    simp only [scanArray, first, scanElements, ih, bind, Except.bind, Except.map]

theorem loads_deep (depth : Nat) :
    loads depth (asciiBytes (List.replicate (depth + 1) 91)) = .error .recursion := by
  have brackets : ∀ c ∈ List.replicate (depth + 1) 91, c = 91 := fun c => List.eq_of_mem_replicate
  have first : skipBlanks (List.replicate (depth + 1) 91) = List.replicate (depth + 1) 91 := by
    rw [List.replicate_succ]
    simp [skipBlanks, isBlank]
  rw [loads_ascii depth (fun c inside => by have := brackets c inside; omega)
    (fun c inside => by have := brackets c inside; omega), loadsText, first, scanOnce_deep]
  rfl

end Bytes

end JsonText
