import Kdive.Lib.JsonRoundTrip
import Mathlib.Data.List.TakeWhile

/-!
The text of a UUID: 128 bits in groups of hexadecimal digits with dashes. The reader takes the groups
apart by deleting what may stand around and between them, and leaves the rest to the reading of an
integer in base 16, with the spaces, the sign, the mark of the base and the underscores it allows.
-/
namespace UuidText
open JsonText (Str str hexDigit hexValue)

structure Unicode where
  isSpace : Nat → Bool
  decimal : Nat → Option Nat

section Reading

theorem neZero : NeZero (2 ^ 128) := inferInstance

/-- `str.replace` of a text by nothing. -/
def removeAll (old : Str) : Nat → Str → Str
  | _, [] => []
  | skip + 1, _ :: rest => removeAll old skip rest
  | 0, c :: rest =>
    if old <+: c :: rest then removeAll old (old.length - 1) rest else c :: removeAll old 0 rest

def isBrace (c : Nat) : Bool := c == 123 || c == 125

/-- `str.strip` of braces. -/
def stripBraces (text : Str) : Str :=
  ((text.dropWhile isBrace).reverse.dropWhile isBrace).reverse

def toAscii (unicode : Unicode) (c : Nat) : Nat :=
  if c < 128 then c
  else if unicode.isSpace c then 32
  else match unicode.decimal c with
    | some d => 48 + d
    | none => 63

def isSpace (c : Nat) : Bool := c == 32 || decide (9 ≤ c) && decide (c ≤ 13)

def skipSign : Str → Str
  | 43 :: rest => rest
  | text => text

def skipBase : Str → Str
  | 48 :: x :: rest =>
    if x = 120 ∨ x = 88 then
      match rest with
      | 95 :: rest => rest
      | rest => rest
    else 48 :: x :: rest
  | text => text

def isHex (c : Nat) : Bool := (hexValue c).isSome

def separated : Str → Bool
  | [] => true
  | [c] => c != 95
  | c :: d :: rest => !(c == 95 && d == 95) && separated (d :: rest)

def hexNat (digits : Str) : Nat := digits.foldl (fun n c => n * 16 + (hexValue c).getD 0) 0

def int16 (unicode : Unicode) (text : Str) : Option Nat :=
  let text := skipBase (skipSign ((text.map (toAscii unicode)).dropWhile isSpace))
  let digits := text.takeWhile (fun c => isHex c || c == 95)
  let rest := text.dropWhile (fun c => isHex c || c == 95)
  if digits ≠ [] ∧ digits.head? ≠ some 95 ∧ separated digits ∧ rest.dropWhile isSpace = [] then
    some (hexNat (digits.filter isHex))
  else none

def uuid (unicode : Unicode) (hex : Str) : Option (Fin (2 ^ 128)) :=
  let hex := removeAll (str "uuid:") 0 (removeAll (str "urn:") 0 hex)
  let hex := (stripBraces hex).filter (fun c => decide (c ≠ 45))
  if hex.length ≠ 32 then none
  else (int16 unicode hex).bind (fun n => if small : n < 2 ^ 128 then some ⟨n, small⟩ else none)

end Reading

section Writing

def hexPad : Nat → Nat → Str
  | 0, _ => []
  | width + 1, n => hexPad width (n / 16) ++ [hexDigit (n % 16)]

def text (u : Fin (2 ^ 128)) : Str :=
  let hex := hexPad 32 u
  hex.take 8 ++ [45] ++ (hex.drop 8).take 4 ++ [45] ++ (hex.drop 12).take 4 ++ [45] ++
    (hex.drop 16).take 4 ++ [45] ++ hex.drop 20

end Writing

section RoundTrip

theorem length_hexPad : ∀ (width n : Nat), (hexPad width n).length = width := by
  intro width
  induction width with
  | zero =>
    intro n
    rfl
  | succ width ih =>
    intro n
    simp [hexPad, ih]

def Lower (c : Nat) : Prop := (48 ≤ c ∧ c ≤ 57) ∨ (97 ≤ c ∧ c ≤ 102)

theorem lower_hexDigit {n : Nat} (small : n < 16) : Lower (hexDigit n) := by
  unfold Lower hexDigit
  split <;> omega

theorem lower_hexPad : ∀ {width n : Nat}, ∀ c ∈ hexPad width n, Lower c := by
  intro width
  induction width with
  | zero => simp [hexPad]
  | succ width ih =>
    intro n c inside
    rw [hexPad, List.mem_append, List.mem_singleton] at inside
    rcases inside with earlier | rfl
    · exact ih c earlier
    · exact lower_hexDigit (Nat.mod_lt _ (by decide))

theorem hexNat_hexPad : ∀ {width n : Nat}, n < 16 ^ width → hexNat (hexPad width n) = n := by
  intro width
  induction width with
  | zero =>
    intro n small
    have zero : n = 0 := by simpa using small
    rw [zero]
    rfl
  | succ width ih =>
    intro n small
    have earlier : hexNat (hexPad width (n / 16)) = n / 16 := by
      apply ih
      rw [Nat.pow_succ] at small
      omega
    unfold hexNat at earlier ⊢
    rw [hexPad, List.foldl_append, earlier]
    simp only [List.foldl_cons, List.foldl_nil,
      JsonText.hexValue_hexDigit (Nat.mod_lt n (show 0 < 16 by decide)), Option.getD_some]
    omega

theorem removeAll_eq_self {first : Nat} {others text : Str} (absent : first ∉ text) :
    removeAll (first :: others) 0 text = text := by
  induction text with
  | nil => rfl
  | cons c text ih =>
    have other : ¬ (first :: others) <+: c :: text := by
      intro lead
      rw [List.cons_prefix_cons] at lead
      exact absent (lead.1 ▸ List.mem_cons_self)
    rw [removeAll, if_neg other, ih (fun inside => absent (List.mem_cons_of_mem _ inside))]

theorem stripBraces_eq_self {text : Str} (plain : ∀ c ∈ text, isBrace c = false) :
    stripBraces text = text := by
  have unchanged : ∀ {text : Str}, (∀ c ∈ text, isBrace c = false) →
      text.dropWhile isBrace = text := by
    intro text plain
    cases text with
    | nil => rfl
    | cons c text => simp [plain c List.mem_cons_self]
  unfold stripBraces
  rw [unchanged plain, unchanged (fun c inside => plain c (List.mem_reverse.1 inside)),
    List.reverse_reverse]

theorem separated_lower {text : Str} (lower : ∀ c ∈ text, Lower c) : separated text = true := by
  have not_underscore : ∀ c ∈ text, c ≠ 95 := by
    rintro c inside rfl
    have := lower 95 inside
    unfold Lower at this
    omega
  fun_induction separated text with
  | case1 => rfl
  | case2 c =>
    have := not_underscore c (by simp)
    simpa using this
  | case3 c d rest ih =>
    have first := not_underscore c (by simp)
    have others := ih (fun e inside => lower e (List.mem_cons_of_mem _ inside))
      (fun e inside => not_underscore e (List.mem_cons_of_mem _ inside))
    simp [first, others]

theorem isHex_lower {c : Nat} (lower : Lower c) : isHex c = true := by
  unfold isHex hexValue
  rcases lower with digit | letter
  · rw [if_pos digit]
    rfl
  · rw [if_neg (by omega), if_pos letter]
    rfl

theorem toAscii_lower (unicode : Unicode) {text : Str} (lower : ∀ c ∈ text, Lower c) :
    text.map (toAscii unicode) = text := by
  conv_rhs => rw [← List.map_id text]
  apply List.map_congr_left
  intro c inside
  have small : c < 128 := by
    rcases lower c inside with digit | letter <;> omega
  simp [toAscii, small]

theorem skipSign_lower {text : Str} (lower : ∀ c ∈ text, Lower c) : skipSign text = text := by
  unfold skipSign
  split
  · have := lower 43 List.mem_cons_self
    unfold Lower at this
    omega
  · rfl

theorem skipBase_lower {text : Str} (lower : ∀ c ∈ text, Lower c) : skipBase text = text := by
  unfold skipBase
  split
  · rename_i x rest
    have second := lower x (by simp)
    unfold Lower at second
    rw [if_neg (by omega)]
  · rfl

theorem int16_lower (unicode : Unicode) {text : Str} (some_digit : text ≠ [])
    (lower : ∀ c ∈ text, Lower c) : int16 unicode text = some (hexNat text) := by
  have accepted : ∀ c ∈ text, (isHex c || c == 95) = true := by
    intro c inside
    rw [isHex_lower (lower c inside), Bool.true_or]
  have no_space : text.dropWhile isSpace = text := by
    cases text with
    | nil => rfl
    | cons c text =>
      have plain : isSpace c = false := by
        have := lower c List.mem_cons_self
        unfold Lower at this
        simp only [isSpace, Bool.or_eq_false_iff, beq_eq_false_iff_ne, Bool.and_eq_false_iff,
          decide_eq_false_iff_not]
        omega
      simp [plain]
  have head : text.head? ≠ some 95 := by
    intro underscore
    have := lower 95 (List.mem_of_head? underscore)
    unfold Lower at this
    omega
  have digits : text.filter isHex = text :=
    List.filter_eq_self.2 (fun c inside => isHex_lower (lower c inside))
  have taken : text.takeWhile (fun c => isHex c || c == 95) = text :=
    List.takeWhile_eq_self_iff.2 accepted
  have dropped : text.dropWhile (fun c => isHex c || c == 95) = [] :=
    List.dropWhile_eq_nil_iff.2 accepted
  simp only [int16, toAscii_lower unicode lower, no_space, skipSign_lower lower,
    skipBase_lower lower, taken, dropped, digits]
  rw [if_pos ⟨some_digit, head, separated_lower lower, rfl⟩]

theorem groups_eq (hex : Str) :
    hex.take 8 ++ (hex.drop 8).take 4 ++ (hex.drop 12).take 4 ++ (hex.drop 16).take 4 ++
      hex.drop 20 = hex := by
  have cut : ∀ n, (hex.drop n).take 4 ++ hex.drop (n + 4) = hex.drop n := by
    intro n
    rw [← List.drop_drop, List.take_append_drop]
  rw [List.append_assoc, cut 16, List.append_assoc, cut 12, List.append_assoc, cut 8,
    List.take_append_drop]

theorem filter_text (u : Fin (2 ^ 128)) :
    (text u).filter (fun c => decide (c ≠ 45)) = hexPad 32 u := by
  have kept : ∀ {part : Str}, (∀ c ∈ part, c ∈ hexPad 32 u) →
      part.filter (fun c => decide (c ≠ 45)) = part := by
    intro part inside
    rw [List.filter_eq_self]
    intro c member
    have := lower_hexPad c (inside c member)
    unfold Lower at this
    simp
    omega
  have dash : [45].filter (fun c => decide (c ≠ 45)) = [] := rfl
  unfold text
  dsimp only
  simp only [List.filter_append, dash, List.append_nil]
  rw [kept (fun c => List.mem_of_mem_take),
    kept (fun c inside => List.mem_of_mem_drop (List.mem_of_mem_take inside)),
    kept (fun c inside => List.mem_of_mem_drop (List.mem_of_mem_take inside)),
    kept (fun c inside => List.mem_of_mem_drop (List.mem_of_mem_take inside)),
    kept (fun c => List.mem_of_mem_drop)]
  exact groups_eq (hexPad 32 u)

theorem lower_or_dash_text (u : Fin (2 ^ 128)) : ∀ c ∈ text u, Lower c ∨ c = 45 := by
  intro c inside
  by_cases dash : c = 45
  · exact .inr dash
  · left
    have kept : c ∈ (text u).filter (fun c => decide (c ≠ 45)) :=
      List.mem_filter.2 ⟨inside, decide_eq_true dash⟩
    rw [filter_text] at kept
    exact lower_hexPad c kept

theorem small_text (u : Fin (2 ^ 128)) : ∀ c ∈ text u, c < 128 := by
  intro c inside
  rcases lower_or_dash_text u c inside with lower | dash
  · unfold Lower at lower
    omega
  · omega

theorem uuid_text (unicode : Unicode) (u : Fin (2 ^ 128)) : uuid unicode (text u) = some u := by
  have letters := lower_or_dash_text u
  have no_u : 117 ∉ text u := by
    intro inside
    rcases letters 117 inside with lower | dash
    · unfold Lower at lower
      omega
    · omega
  have urn : removeAll (str "urn:") 0 (text u) = text u := removeAll_eq_self no_u
  have uuid_mark : removeAll (str "uuid:") 0 (text u) = text u := removeAll_eq_self no_u
  have braces : stripBraces (text u) = text u := by
    apply stripBraces_eq_self
    intro c inside
    simp only [isBrace, Bool.or_eq_false_iff, beq_eq_false_iff_ne]
    rcases letters c inside with lower | dash
    · unfold Lower at lower
      omega
    · omega
  have small : u.val < 16 ^ 32 := u.isLt
  have filled : hexPad 32 u ≠ [] := by
    rw [← List.length_pos_iff, length_hexPad]
    decide
  simp only [uuid, urn, uuid_mark, braces, filter_text, length_hexPad, ne_eq, not_true_eq_false,
    if_false, int16_lower unicode filled (fun c => lower_hexPad c), Option.bind_some,
    hexNat_hexPad small, u.isLt, dif_pos]

end RoundTrip

end UuidText
