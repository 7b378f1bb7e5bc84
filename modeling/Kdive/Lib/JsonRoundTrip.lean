import Mathlib.Data.Nat.Digits.Lemmas
import Kdive.Lib.JsonText

/-!
What `dumps` writes, `loads` reads back, for values without floats and without halves of surrogate
pairs. Characters first, then strings and integers, then the containers, each with any text behind
it that does not run on.
-/
namespace JsonText

def Scalar (c : Nat) : Prop := c < 0x110000 ∧ ¬ (0xD800 ≤ c ∧ c ≤ 0xDFFF)

instance (c : Nat) : Decidable (Scalar c) := by unfold Scalar; infer_instance

theorem scalar_str (s : String) : ∀ c ∈ str s, Scalar c := by
  intro c inside
  obtain ⟨letter, _, rfl⟩ := List.mem_map.1 inside
  have valid := letter.valid
  simp only [UInt32.isValidChar, Nat.isValidChar] at valid
  have code : letter.toNat = letter.val.toNat := rfl
  unfold Scalar
  omega

theorem hexValue_hexDigit {n : Nat} (small : n < 16) : hexValue (hexDigit n) = some n := by
  interval_cases n <;> rfl

theorem hexValue4_hex4 {n : Nat} (small : n < 65536) :
    hexValue4 (hexDigit (n / 4096 % 16)) (hexDigit (n / 256 % 16)) (hexDigit (n / 16 % 16))
      (hexDigit (n % 16)) = some n := by
  unfold hexValue4
  rw [hexValue_hexDigit (Nat.mod_lt _ (by decide)), hexValue_hexDigit (Nat.mod_lt _ (by decide)),
    hexValue_hexDigit (Nat.mod_lt _ (by decide)), hexValue_hexDigit (Nat.mod_lt _ (by decide))]
  simp only [Option.bind_eq_bind, Option.bind_some, Option.pure_def, Option.some.injEq]
  omega

theorem escape_ne_nil (c : Nat) : escape c ≠ [] := by
  unfold escape
  split_ifs <;> simp

theorem nextChar_unicode {n : Nat} (small : n < 65536) (low : isHigh n = false) (rest : Str) :
    nextChar ([92, 117] ++ hex4 n ++ rest) = some (some n, rest) := by
  unfold hex4
  simp only [List.cons_append, List.nil_append, nextChar]
  rw [hexValue4_hex4 small]
  simp [low]

theorem nextChar_pair {high low : Nat} (is_high : isHigh high = true) (is_low : isLow low = true)
    (rest : Str) :
    nextChar ([92, 117] ++ hex4 high ++ ([92, 117] ++ hex4 low) ++ rest) =
      some (some (joined high low), rest) := by
  simp only [isHigh, isLow, Bool.and_eq_true, decide_eq_true_eq] at is_high is_low
  unfold hex4
  simp only [List.cons_append, List.nil_append, nextChar]
  rw [hexValue4_hex4 (by omega)]
  have ahead : isHigh high = true := by simp [isHigh, is_high.1, is_high.2]
  have behind : isLow low = true := by simp [isLow, is_low.1, is_low.2]
  simp only [Option.map_some, ahead, if_true, lowAhead]
  rw [hexValue4_hex4 (by omega)]
  simp [behind]

theorem nextChar_simple {c : Nat} (other : c ≠ 117) (rest : Str) :
    nextChar (92 :: c :: rest) = (simpleEscape c).map (fun code => (some code, rest)) := by
  unfold nextChar
  split
  · simp_all
  · simp_all
  · simp_all
  · simp_all
  · rename_i not_escape equal
    injection equal with equal tail
    exact absurd tail.symm (fun shape => not_escape _ _ equal.symm shape)

theorem isHigh_highHalf (c : Nat) : isHigh (highHalf c) = true := by
  have range : 0xD800 ≤ highHalf c ∧ highHalf c ≤ 0xDBFF := by
    unfold highHalf
    omega
  simp [isHigh, range.1, range.2]

theorem isLow_lowHalf (c : Nat) : isLow (lowHalf c) = true := by
  have range : 0xDC00 ≤ lowHalf c ∧ lowHalf c ≤ 0xDFFF := by
    unfold lowHalf
    omega
  simp [isLow, range.1, range.2]

theorem joined_halves {c : Nat} (large : 0x10000 ≤ c) (bounded : c < 0x110000) :
    joined (highHalf c) (lowHalf c) = c := by
  unfold joined highHalf lowHalf
  omega

theorem nextChar_escape {c : Nat} (scalar : Scalar c) (rest : Str) :
    nextChar (escape c ++ rest) = some (some c, rest) := by
  obtain ⟨bounded, whole⟩ := scalar
  unfold escape
  split_ifs with h1 h2 h3 h4 h5 h6 h7 h8 h9
  · subst c
    exact nextChar_simple (by decide) rest
  · subst c
    exact nextChar_simple (by decide) rest
  · subst c
    exact nextChar_simple (by decide) rest
  · subst c
    exact nextChar_simple (by decide) rest
  · subst c
    exact nextChar_simple (by decide) rest
  · subst c
    exact nextChar_simple (by decide) rest
  · subst c
    exact nextChar_simple (by decide) rest
  · -- a printable character stands for itself
    obtain ⟨lo, hi⟩ := h8
    have shape : nextChar (c :: rest) =
        if c ≤ 31 ∨ c = 92 then none else some (some c, rest) := by
      unfold nextChar
      split <;> simp_all
    rw [List.singleton_append, shape, if_neg (by omega)]
  · apply nextChar_unicode (by omega)
    simp only [isHigh, Bool.and_eq_false_iff, decide_eq_false_iff_not]
    omega
  · rw [nextChar_pair (isHigh_highHalf c) (isLow_lowHalf c), joined_halves (by omega) bounded]

theorem nextChar_quote (rest : Str) : nextChar (34 :: rest) = some (none, rest) := rfl

theorem scanString_escape {s : Str} (scalar : ∀ c ∈ s, Scalar c) (rest : Str) :
    ∀ {turns : Nat}, s.length < turns →
      scanString turns (s.flatMap escape ++ 34 :: rest) = some (s, rest) := by
  induction s with
  | nil =>
    intro turns enough
    obtain ⟨turns, rfl⟩ : ∃ n, turns = n + 1 := ⟨turns - 1, by simp at enough; omega⟩
    simp [scanString, nextChar_quote]
  | cons c s ih =>
    intro turns enough
    obtain ⟨turns, rfl⟩ : ∃ n, turns = n + 1 := ⟨turns - 1, by simp at enough; omega⟩
    have others := @ih (fun d inside => scalar d (List.mem_cons_of_mem _ inside)) turns
      (by simp at enough; omega)
    rw [List.flatMap_cons, List.append_assoc, scanString,
      nextChar_escape (scalar c List.mem_cons_self)]
    simp only [Option.bind_some]
    rw [others]
    rfl

theorem length_le_escape (s : Str) : s.length ≤ (s.flatMap escape).length := by
  induction s with
  | nil => simp
  | cons c s ih =>
    have some_text := List.length_pos_iff.2 (escape_ne_nil c)
    rw [List.flatMap_cons, List.length_append, List.length_cons]
    omega

theorem scanString_quoted {s : Str} (scalar : ∀ c ∈ s, Scalar c) (rest : Str) :
    scanString ((s.flatMap escape ++ 34 :: rest).length + 1) (s.flatMap escape ++ 34 :: rest) =
      some (s, rest) := by
  apply scanString_escape scalar
  have := length_le_escape s
  simp only [List.length_append, List.length_cons]
  omega

theorem quoted_append (s rest : Str) :
    quoted s ++ rest = 34 :: (s.flatMap escape ++ 34 :: rest) := by
  simp [quoted]

def Ends (text : Str) : Prop :=
  ∀ c ∈ text.head?, isDigit c = false ∧ c ≠ 46 ∧ c ≠ 101 ∧ c ≠ 69

theorem natOf_digits (digits : List Nat) :
    natOf (digits.reverse.map (48 + ·)) = Nat.ofDigits 10 digits := by
  induction digits with
  | nil => rfl
  | cons d digits ih =>
    rw [List.reverse_cons, List.map_append, natOf, List.foldl_append]
    have others : List.foldl (fun n c => n * 10 + (c - 48)) 0 (digits.reverse.map (48 + ·)) =
        Nat.ofDigits 10 digits := ih
    rw [others]
    simp only [List.map_cons, List.map_nil, List.foldl_cons, List.foldl_nil, Nat.ofDigits_cons]
    omega

theorem natOf_decimal (n : Nat) : natOf (decimal n) = n := by
  unfold decimal
  split_ifs with zero
  · subst zero
    rfl
  · rw [natOf_digits, Nat.ofDigits_digits]

theorem isDigit_of_mem_decimal {n c : Nat} (inside : c ∈ decimal n) : isDigit c = true := by
  unfold decimal at inside
  split_ifs at inside with zero
  · rw [List.mem_singleton.1 inside]
    rfl
  · obtain ⟨d, mem, rfl⟩ := List.mem_map.1 inside
    have small := Nat.digits_lt_base (by decide : 1 < 10) (List.mem_reverse.1 mem)
    simp only [isDigit, Bool.and_eq_true, decide_eq_true_eq]
    omega

theorem decimal_pos {n : Nat} (positive : 0 < n) :
    ∃ c digits, decimal n = c :: digits ∧ c ≠ 48 := by
  have some_digit : Nat.digits 10 n ≠ [] := Nat.digits_ne_nil_iff_ne_zero.2 (by omega)
  have last := Nat.getLast_digit_ne_zero 10 (show n ≠ 0 by omega)
  refine ⟨48 + (Nat.digits 10 n).getLast some_digit,
    (Nat.digits 10 n).dropLast.reverse.map (48 + ·), ?_, by omega⟩
  unfold decimal
  rw [if_neg (by omega)]
  conv_lhs => rw [← List.dropLast_append_getLast some_digit]
  simp

theorem decimal_ne_nil (n : Nat) : decimal n ≠ [] := by
  rcases Nat.eq_zero_or_pos n with rfl | positive
  · simp [decimal]
  · obtain ⟨c, digits, shape, _⟩ := decimal_pos positive
    simp [shape]

theorem span_digits {digits rest : Str} (all : ∀ c ∈ digits, isDigit c = true)
    (stop : ∀ c ∈ rest.head?, isDigit c = false) :
    (digits ++ rest).takeWhile isDigit = digits ∧ (digits ++ rest).dropWhile isDigit = rest := by
  rw [List.takeWhile_append_of_pos all, List.dropWhile_append_of_pos all]
  cases rest with
  | nil => simp
  | cons c rest =>
    have other := stop c (by simp)
    simp [other]

theorem wholePart_decimal (n : Nat) {rest : Str} (ends : Ends rest) :
    wholePart (decimal n ++ rest) = some (decimal n, rest) := by
  rcases Nat.eq_zero_or_pos n with rfl | positive
  · simp [decimal, wholePart]
  · obtain ⟨c, digits, shape, nonzero⟩ := decimal_pos positive
    have all : ∀ d ∈ c :: digits, isDigit d = true := fun d inside =>
      isDigit_of_mem_decimal (shape ▸ inside)
    obtain ⟨taken, dropped⟩ := span_digits (fun d inside => all d (List.mem_cons_of_mem _ inside))
      (fun d inside => (ends d inside).1)
    simp [shape, wholePart, nonzero, all c List.mem_cons_self, taken, dropped]

theorem fraction_of_ends {rest : Str} (ends : Ends rest) : fraction rest = ([], rest) := by
  unfold fraction
  split
  · exact absurd rfl (ends 46 (by simp)).2.1
  · rfl

theorem exponent_of_ends {rest : Str} (ends : Ends rest) : exponent rest = ([], rest) := by
  cases rest with
  | nil => rfl
  | cons e rest =>
    obtain ⟨_, _, lower, upper⟩ := ends e (by simp)
    unfold exponent
    split <;> simp_all

theorem scanUnsigned_decimal (negative : Bool) {n : Nat} {rest : Str} (ends : Ends rest)
    (short : (decimal n).length ≤ maxDigits) :
    scanUnsigned negative (decimal n ++ rest) =
      some (.int (if negative then -(n : Int) else n), rest) := by
  unfold scanUnsigned
  rw [wholePart_decimal n ends]
  simp only [Option.bind_some, fraction_of_ends ends, exponent_of_ends ends, natOf_decimal]
  simp [Nat.not_lt.2 short]

theorem head?_decimal (n : Nat) : ∃ c digits, decimal n = c :: digits ∧ isDigit c = true := by
  obtain ⟨c, digits, shape⟩ := List.exists_cons_of_ne_nil (decimal_ne_nil n)
  refine ⟨c, digits, shape, isDigit_of_mem_decimal (n := n) ?_⟩
  rw [shape]
  exact List.mem_cons_self

theorem scanWord_eq_none {text : Str} (other : ∀ word ∈ words, ¬ word.1 <+: text) :
    scanWord text = none := by
  unfold scanWord
  rw [List.findSome?_eq_none_iff]
  intro word inside
  rw [behind, if_neg (other word inside)]
  rfl

theorem scanWord_digit {c : Nat} (digit : isDigit c = true) (rest : Str) :
    scanWord (c :: rest) = none := by
  simp only [isDigit, Bool.and_eq_true, decide_eq_true_eq] at digit
  apply scanWord_eq_none
  simp only [words, List.mem_cons, List.not_mem_nil, or_false]
  rintro word (rfl | rfl | rfl | rfl | rfl | rfl) <;> simp [str] <;> omega

theorem scanWord_minus {c : Nat} (digit : isDigit c = true) (rest : Str) :
    scanWord (45 :: c :: rest) = none := by
  simp only [isDigit, Bool.and_eq_true, decide_eq_true_eq] at digit
  apply scanWord_eq_none
  simp only [words, List.mem_cons, List.not_mem_nil, or_false]
  rintro word (rfl | rfl | rfl | rfl | rfl | rfl) <;> simp [str]
  omega

theorem scanNumber_digit {c : Nat} (digit : isDigit c = true) (rest : Str) :
    scanNumber (c :: rest) = scanUnsigned false (c :: rest) := by
  unfold scanNumber
  split
  · simp_all [isDigit]
  · rfl

theorem scanOnce_of_leaf {depth c : Nat} (rest : Str) (quote : c ≠ 34) (brace : c ≠ 123)
    (bracket : c ≠ 91) :
    scanOnce depth (c :: rest) =
      orInvalid ((scanWord (c :: rest)).or (scanNumber (c :: rest))) := by
  unfold scanOnce
  simp [quote, brace, bracket]

theorem scanOnce_int (depth : Nat) {n : Int} {rest : Str} (ends : Ends rest)
    (short : (decimal n.natAbs).length ≤ maxDigits) :
    scanOnce depth (intText n ++ rest) = .ok (.int n, rest) := by
  cases n with
  | ofNat n =>
    obtain ⟨c, digits, shape, digit⟩ := head?_decimal n
    have read := scanUnsigned_decimal false ends short
    simp only [Int.ofNat_eq_natCast, Int.natAbs_natCast] at read
    rw [shape, List.cons_append] at read
    have range := digit
    simp only [isDigit, Bool.and_eq_true, decide_eq_true_eq] at range
    rw [intText, shape, List.cons_append, scanOnce_of_leaf _ (by omega) (by omega) (by omega),
      scanWord_digit digit, scanNumber_digit digit, read]
    rfl
  | negSucc n =>
    obtain ⟨c, digits, shape, digit⟩ := head?_decimal (n + 1)
    have read := scanUnsigned_decimal true ends short
    simp only [Int.natAbs_negSucc, Nat.succ_eq_add_one] at read
    rw [shape, List.cons_append] at read
    rw [intText, shape, List.singleton_append, List.cons_append, List.cons_append,
      scanOnce_of_leaf _ (by decide) (by decide) (by decide), scanWord_minus digit]
    simp only [scanNumber, Option.none_or]
    rw [read]
    simp [orInvalid, Int.negSucc_eq]

/-- The separators with the blanks that may follow the comma and the colon. -/
structure Separators (item key : Str) : Prop where
  item : ∃ blanks, item = 44 :: blanks ∧ ∀ c ∈ blanks, isBlank c = true
  key : ∃ blanks, key = 58 :: blanks ∧ ∀ c ∈ blanks, isBlank c = true

/-- A value that is written as it is read: no floats, no halves of surrogate pairs, no integer
beyond the reader's limit, and no more containers in one another than it takes. -/
def Fits : Nat → Value → Prop
  | _, .null => True
  | _, .bool _ => True
  | _, .int n => (decimal n.natAbs).length ≤ maxDigits
  | _, .float _ => False
  | _, .text s => ∀ c ∈ s, Scalar c
  | 0, .array _ => False
  | 0, .object _ => False
  | depth + 1, .array elements => ∀ v ∈ elements, Fits depth v
  | depth + 1, .object members => ∀ m ∈ members, (∀ c ∈ m.1, Scalar c) ∧ Fits depth m.2

def Starts (text : Str) : Prop :=
  ∃ c rest, text = c :: rest ∧ isBlank c = false ∧ c ≠ 93 ∧ c ≠ 125

theorem skipBlanks_starts {text : Str} (starts : Starts text) : skipBlanks text = text := by
  obtain ⟨c, rest, rfl, plain, _, _⟩ := starts
  simp [skipBlanks, plain]

theorem skipBlanks_blanks {blanks : Str} (all : ∀ c ∈ blanks, isBlank c = true) (text : Str) :
    skipBlanks (blanks ++ text) = skipBlanks text := by
  unfold skipBlanks
  rw [List.dropWhile_append_of_pos all]

theorem Starts.append {text : Str} (starts : Starts text) (rest : Str) : Starts (text ++ rest) := by
  obtain ⟨c, tail, rfl, plain⟩ := starts
  exact ⟨c, tail ++ rest, rfl, plain⟩

theorem starts_dumps {item key : Str} {depth : Nat} {v : Value} (fits : Fits depth v) :
    Starts (dumps item key v) := by
  cases v with
  | null => exact ⟨110, str "ull", rfl, by decide, by decide, by decide⟩
  | bool b => cases b <;> simp [dumps, str, Starts, isBlank]
  | int n =>
    cases n with
    | ofNat n =>
      obtain ⟨c, digits, shape, digit⟩ := head?_decimal n
      simp only [isDigit, Bool.and_eq_true, decide_eq_true_eq] at digit
      refine ⟨c, digits, by simp [dumps, intText, shape], ?_, by omega, by omega⟩
      simp only [isBlank, Bool.or_eq_false_iff, beq_eq_false_iff_ne]
      omega
    | negSucc n => exact ⟨45, decimal (n + 1), by simp [dumps, intText], by decide, by decide,
        by decide⟩
  | float literal => cases depth <;> simp [Fits] at fits
  | text s =>
    refine ⟨34, s.flatMap escape ++ [34], by simp [dumps, quoted], by decide, by decide, by decide⟩
  | array elements =>
    exact ⟨91, dumpsElements item key elements ++ [93], by simp [dumps], by decide, by decide,
      by decide⟩
  | object members =>
    exact ⟨123, dumpsMembers item key members ++ [125], by simp [dumps], by decide, by decide,
      by decide⟩

theorem ends_closing {c : Nat} (closing : c = 93 ∨ c = 125) (rest : Str) : Ends (c :: rest) := by
  intro d same
  simp only [List.head?_cons, Option.mem_def, Option.some.injEq] at same
  subst same
  rcases closing with rfl | rfl <;> decide

theorem starts_dumpsElements {item key : Str} {v : Value} (elements : List Value)
    (starts : Starts (dumps item key v)) : Starts (dumpsElements item key (v :: elements)) := by
  cases elements with
  | nil => exact starts
  | cons w elements => exact (starts.append _).append _

theorem starts_dumpsMembers (item key : Str) (m : Str × Value) (members : List (Str × Value)) :
    Starts (dumpsMembers item key (m :: members)) := by
  have first : Starts (quoted m.1) :=
    ⟨34, m.1.flatMap escape ++ [34], by simp [quoted], by decide, by decide, by decide⟩
  cases members with
  | nil => exact (first.append _).append _
  | cons n members => exact (((first.append _).append _).append _).append _

section Containers

variable {item key : Str} (separators : Separators item key)

include separators

theorem ends_item (rest : Str) : Ends (item ++ rest) := by
  obtain ⟨blanks, rfl, _⟩ := separators.item
  intro c same
  simp only [List.cons_append, List.head?_cons, Option.mem_def, Option.some.injEq] at same
  subst same
  decide

theorem afterItem_item {closing : Nat} (other : closing ≠ 44) {text : Str} (starts : Starts text) :
    afterItem closing (item ++ text) = some (false, text) := by
  obtain ⟨blanks, rfl, all⟩ := separators.item
  have skipped : skipBlanks (44 :: (blanks ++ text)) = 44 :: (blanks ++ text) := by
    simp [skipBlanks, isBlank]
  unfold afterItem
  rw [List.cons_append, skipped]
  simp [Ne.symm other, skipBlanks_blanks all, skipBlanks_starts starts]

omit separators in
theorem afterItem_closing {closing : Nat} (bracket : isBlank closing = false) (rest : Str) :
    afterItem closing (closing :: rest) = some (true, rest) := by
  simp [afterItem, skipBlanks, bracket]

def Reads (item key : Str) (scan : Str → Except Failure (Value × Str)) (v : Value) : Prop :=
  Starts (dumps item key v) ∧
    ∀ rest, Ends rest → scan (dumps item key v ++ rest) = .ok (v, rest)

theorem scanElements_dumps {scan : Str → Except Failure (Value × Str)} {elements : List Value}
    (some_element : elements ≠ []) (reads : ∀ v ∈ elements, Reads item key scan v) (rest : Str) :
    ∀ {turns : Nat}, elements.length ≤ turns →
      scanElements scan turns (dumpsElements item key elements ++ 93 :: rest) =
        .ok (elements, rest) := by
  induction elements with
  | nil => exact absurd rfl some_element
  | cons v elements ih =>
    intro turns enough
    obtain ⟨turns, rfl⟩ : ∃ n, turns = n + 1 := ⟨turns - 1, by simp at enough; omega⟩
    have here := (reads v List.mem_cons_self).2
    cases elements with
    | nil =>
      have read := here (93 :: rest) (ends_closing (.inl rfl) rest)
      simp only [scanElements, dumpsElements, read, bind, Except.bind]
      rw [afterItem_closing (by decide)]
      rfl
    | cons w elements =>
      have others := @ih (by simp) (fun u inside => reads u (List.mem_cons_of_mem _ inside)) turns
        (by simp at enough ⊢; omega)
      have starts := starts_dumpsElements elements (reads w (by simp)).1
      have read := here (item ++ (dumpsElements item key (w :: elements) ++ 93 :: rest))
        (ends_item separators _)
      have shape : dumpsElements item key (v :: w :: elements) ++ 93 :: rest =
          dumps item key v ++ (item ++ (dumpsElements item key (w :: elements) ++ 93 :: rest)) := by
        simp [dumpsElements]
      rw [shape]
      simp only [scanElements, read, bind, Except.bind]
      rw [afterItem_item separators (by decide) (starts.append _)]
      simp only [orInvalid, Bool.false_eq_true, if_false]
      rw [others]
      rfl

theorem scanName_quoted {name : Str} (scalar : ∀ c ∈ name, Scalar c) {text : Str}
    (starts : Starts text) : scanName (quoted name ++ (key ++ text)) = some (name, text) := by
  obtain ⟨blanks, rfl, all⟩ := separators.key
  have skipped : skipBlanks (58 :: (blanks ++ text)) = 58 :: (blanks ++ text) := by
    simp [skipBlanks, isBlank]
  rw [quoted_append, scanName, List.cons_append, scanString_quoted scalar]
  simp only [Option.bind_some]
  rw [skipped]
  simp [skipBlanks_blanks all, skipBlanks_starts starts]

theorem scanMembers_dumps {scan : Str → Except Failure (Value × Str)}
    {members : List (Str × Value)} (some_member : members ≠ [])
    (scalar : ∀ m ∈ members, ∀ c ∈ m.1, Scalar c)
    (reads : ∀ m ∈ members, Reads item key scan m.2) (rest : Str) :
    ∀ {turns : Nat}, members.length ≤ turns →
      scanMembers scan turns (dumpsMembers item key members ++ 125 :: rest) =
        .ok (members, rest) := by
  induction members with
  | nil => exact absurd rfl some_member
  | cons m members ih =>
    obtain ⟨name, v⟩ := m
    intro turns enough
    obtain ⟨turns, rfl⟩ : ∃ n, turns = n + 1 := ⟨turns - 1, by simp at enough; omega⟩
    obtain ⟨starts, here⟩ := reads (name, v) List.mem_cons_self
    have plain := scalar (name, v) List.mem_cons_self
    cases members with
    | nil =>
      have read := here (125 :: rest) (ends_closing (.inr rfl) rest)
      have shape : dumpsMembers item key [(name, v)] ++ 125 :: rest =
          quoted name ++ (key ++ (dumps item key v ++ 125 :: rest)) := by
        simp [dumpsMembers]
      rw [shape, scanMembers, scanName_quoted separators plain (starts.append _)]
      simp only [orInvalid, bind, Except.bind]
      rw [read]
      simp only [afterItem_closing (show isBlank 125 = false by decide)]
      rfl
    | cons n members =>
      have others := @ih (by simp) (fun u inside => scalar u (List.mem_cons_of_mem _ inside))
        (fun u inside => reads u (List.mem_cons_of_mem _ inside)) turns
        (by simp at enough ⊢; omega)
      have next := starts_dumpsMembers item key n members
      have read := here (item ++ (dumpsMembers item key (n :: members) ++ 125 :: rest))
        (ends_item separators _)
      have shape : dumpsMembers item key ((name, v) :: n :: members) ++ 125 :: rest =
          quoted name ++ (key ++ (dumps item key v ++
            (item ++ (dumpsMembers item key (n :: members) ++ 125 :: rest)))) := by
        simp [dumpsMembers]
      rw [shape, scanMembers, scanName_quoted separators plain (starts.append _)]
      simp only [orInvalid, bind, Except.bind]
      rw [read]
      simp only [afterItem_item separators (show 125 ≠ 44 by decide) (next.append _),
        Bool.false_eq_true, if_false]
      rw [others]
      rfl

omit separators in
theorem length_le_dumpsElements {elements : List Value}
    (starts : ∀ v ∈ elements, Starts (dumps item key v)) :
    elements.length ≤ (dumpsElements item key elements).length := by
  induction elements with
  | nil => simp
  | cons v elements ih =>
    obtain ⟨c, tail, shape, _⟩ := starts v List.mem_cons_self
    have others := ih (fun u inside => starts u (List.mem_cons_of_mem _ inside))
    cases elements with
    | nil => simp [dumpsElements, shape]
    | cons w elements =>
      simp only [dumpsElements, shape, List.length_append, List.length_cons] at others ⊢
      omega

omit separators in
theorem length_le_dumpsMembers (item key : Str) (members : List (Str × Value)) :
    members.length ≤ (dumpsMembers item key members).length := by
  induction members with
  | nil => simp
  | cons m members ih =>
    cases members with
    | nil => simp [dumpsMembers, quoted]
    | cons n members =>
      simp only [dumpsMembers, quoted, List.length_append, List.length_cons] at ih ⊢
      omega

omit separators in
theorem scanOnce_text (depth : Nat) {s : Str} (scalar : ∀ c ∈ s, Scalar c) (rest : Str) :
    scanOnce depth (quoted s ++ rest) = .ok (.text s, rest) := by
  rw [quoted_append]
  unfold scanOnce
  rw [if_pos rfl, scanString_quoted scalar]
  rfl

omit separators in
theorem scanArray_starts (scan : Str → Except Failure (Value × Str)) {text : Str}
    (starts : Starts text) :
    scanArray scan text =
      (scanElements scan (text.length + 1) text).map (fun found => (.array found.1, found.2)) := by
  unfold scanArray
  rw [skipBlanks_starts starts]
  obtain ⟨c, tail, rfl, _, open_array, _⟩ := starts
  split
  · simp_all
  · rfl

omit separators in
theorem scanObject_starts (scan : Str → Except Failure (Value × Str)) {text : Str}
    (starts : Starts text) :
    scanObject scan text =
      (scanMembers scan (text.length + 1) text).map (fun found => (.object found.1, found.2)) := by
  unfold scanObject
  rw [skipBlanks_starts starts]
  obtain ⟨c, tail, rfl, _, _, open_object⟩ := starts
  split
  · simp_all
  · rfl

theorem scanArray_dumps {scan : Str → Except Failure (Value × Str)} {elements : List Value}
    (reads : ∀ v ∈ elements, Reads item key scan v) (rest : Str) :
    scanArray scan (dumpsElements item key elements ++ 93 :: rest) =
      .ok (.array elements, rest) := by
  cases elements with
  | nil => simp [dumpsElements, scanArray, skipBlanks, isBlank]
  | cons v elements =>
    have starts := starts_dumpsElements elements (reads v List.mem_cons_self).1
    have enough := length_le_dumpsElements (fun w inside => (reads w inside).1)
    rw [scanArray_starts scan (starts.append _), scanElements_dumps separators (by simp) reads]
    · rfl
    · rw [List.length_append]
      omega

theorem scanObject_dumps {scan : Str → Except Failure (Value × Str)}
    {members : List (Str × Value)} (scalar : ∀ m ∈ members, ∀ c ∈ m.1, Scalar c)
    (reads : ∀ m ∈ members, Reads item key scan m.2) (rest : Str) :
    scanObject scan (dumpsMembers item key members ++ 125 :: rest) =
      .ok (.object members, rest) := by
  cases members with
  | nil => simp [dumpsMembers, scanObject, skipBlanks, isBlank]
  | cons m members =>
    have starts := starts_dumpsMembers item key m members
    have enough := length_le_dumpsMembers item key (m :: members)
    rw [scanObject_starts scan (starts.append _),
      scanMembers_dumps separators (by simp) scalar reads]
    · rfl
    · rw [List.length_append]
      omega

theorem scanOnce_dumps {depth : Nat} : ∀ {v : Value}, Fits depth v → ∀ {rest : Str}, Ends rest →
    scanOnce depth (dumps item key v ++ rest) = .ok (v, rest) := by
  induction depth with
  | zero =>
    intro v fits rest ends
    cases v with
    | null => rfl
    | bool b => cases b <;> rfl
    | int n => exact scanOnce_int 0 ends fits
    | float literal => exact fits.elim
    | text s => exact scanOnce_text 0 fits rest
    | array elements => exact fits.elim
    | object members => exact fits.elim
  | succ depth ih =>
    intro v fits rest ends
    cases v with
    | null => rfl
    | bool b => cases b <;> rfl
    | int n => exact scanOnce_int (depth + 1) ends fits
    | float literal => exact fits.elim
    | text s => exact scanOnce_text (depth + 1) fits rest
    | array elements =>
      have read := scanArray_dumps separators
        (fun v inside => ⟨starts_dumps (fits v inside), fun rest => ih (fits v inside)⟩) rest
      have shape : dumps item key (.array elements) ++ rest =
          91 :: (dumpsElements item key elements ++ 93 :: rest) := by
        simp [dumps]
      rw [shape, ← read]
      rfl
    | object members =>
      have read := scanObject_dumps separators (fun m inside => (fits m inside).1)
        (fun m inside => ⟨starts_dumps (fits m inside).2, fun rest => ih (fits m inside).2⟩) rest
      have shape : dumps item key (.object members) ++ rest =
          123 :: (dumpsMembers item key members ++ 125 :: rest) := by
        simp [dumps]
      rw [shape, ← read]
      rfl

theorem loadsText_dumps {depth : Nat} {v : Value} (fits : Fits depth v) :
    loadsText depth (dumps item key v) = .ok v := by
  have ends : Ends [] := by
    intro c impossible
    simp at impossible
  have read := scanOnce_dumps separators fits ends
  rw [List.append_nil] at read
  simp only [loadsText, skipBlanks_starts (starts_dumps fits), read, bind, Except.bind]
  rfl

omit separators in
theorem ascii_hex4 (n : Nat) : ∀ c ∈ hex4 n, 0 < c ∧ c < 128 := by
  have each : ∀ m, 0 < hexDigit (m % 16) ∧ hexDigit (m % 16) < 128 := by
    intro m
    unfold hexDigit
    split <;> omega
  intro c inside
  simp only [hex4, List.mem_cons, List.not_mem_nil, or_false] at inside
  rcases inside with rfl | rfl | rfl | rfl <;> exact each _

omit separators in
theorem ascii_escape (c : Nat) : ∀ d ∈ escape c, 0 < d ∧ d < 128 := by
  intro d inside
  unfold escape at inside
  split_ifs at inside
  all_goals
    simp only [List.mem_append, List.mem_cons, List.not_mem_nil, or_false] at inside
    have := ascii_hex4 c d
    have := ascii_hex4 (highHalf c) d
    have := ascii_hex4 (lowHalf c) d
    grind

omit separators in
theorem ascii_quoted (s : Str) : ∀ c ∈ quoted s, 0 < c ∧ c < 128 := by
  intro c inside
  simp only [quoted, List.mem_append, List.mem_singleton, List.mem_flatMap] at inside
  rcases inside with (rfl | ⟨d, _, escaped⟩) | rfl
  · decide
  · exact ascii_escape d c escaped
  · decide

omit separators in
theorem ascii_intText (n : Int) : ∀ c ∈ intText n, 0 < c ∧ c < 128 := by
  have each : ∀ m, ∀ c ∈ decimal m, 0 < c ∧ c < 128 := by
    intro m c inside
    have digit := isDigit_of_mem_decimal inside
    simp only [isDigit, Bool.and_eq_true, decide_eq_true_eq] at digit
    omega
  cases n with
  | ofNat n => exact each n
  | negSucc n =>
    intro c inside
    rcases List.mem_append.1 inside with sign | digits
    · rw [List.mem_singleton.1 sign]
      decide
    · exact each _ c digits

omit separators in
theorem ascii_blanks {mark : Nat} {blanks : Str} (plain : 0 < mark ∧ mark < 128)
    (all : ∀ c ∈ blanks, isBlank c = true) : ∀ c ∈ mark :: blanks, 0 < c ∧ c < 128 := by
  intro c inside
  rcases List.mem_cons.1 inside with rfl | blank
  · exact plain
  · have := all c blank
    simp only [isBlank, Bool.or_eq_true, beq_iff_eq] at this
    omega

theorem Separators.ascii_item : ∀ c ∈ item, 0 < c ∧ c < 128 := by
  obtain ⟨blanks, rfl, all⟩ := separators.item
  exact ascii_blanks (by decide) all

theorem Separators.ascii_key : ∀ c ∈ key, 0 < c ∧ c < 128 := by
  obtain ⟨blanks, rfl, all⟩ := separators.key
  exact ascii_blanks (by decide) all

theorem ascii_dumpsElements {elements : List Value}
    (each : ∀ v ∈ elements, ∀ c ∈ dumps item key v, 0 < c ∧ c < 128) :
    ∀ c ∈ dumpsElements item key elements, 0 < c ∧ c < 128 := by
  induction elements with
  | nil => simp [dumpsElements]
  | cons v elements ih =>
    have others := ih (fun w inside => each w (List.mem_cons_of_mem _ inside))
    have here := each v List.mem_cons_self
    cases elements with
    | nil => exact here
    | cons w elements =>
      intro c inside
      simp only [dumpsElements, List.mem_append] at inside
      rcases inside with (first | comma) | next
      · exact here c first
      · exact separators.ascii_item c comma
      · exact others c next

theorem ascii_dumpsMembers {members : List (Str × Value)}
    (each : ∀ m ∈ members, ∀ c ∈ dumps item key m.2, 0 < c ∧ c < 128) :
    ∀ c ∈ dumpsMembers item key members, 0 < c ∧ c < 128 := by
  induction members with
  | nil => simp [dumpsMembers]
  | cons m members ih =>
    have others := ih (fun n inside => each n (List.mem_cons_of_mem _ inside))
    have here := each m List.mem_cons_self
    obtain ⟨name, v⟩ := m
    cases members with
    | nil =>
      intro c inside
      simp only [dumpsMembers, List.mem_append] at inside
      rcases inside with (first | colon) | value
      · exact ascii_quoted name c first
      · exact separators.ascii_key c colon
      · exact here c value
    | cons n members =>
      intro c inside
      simp only [dumpsMembers, List.mem_append] at inside
      rcases inside with (((first | colon) | value) | comma) | next
      · exact ascii_quoted name c first
      · exact separators.ascii_key c colon
      · exact here c value
      · exact separators.ascii_item c comma
      · exact others c next

omit separators in
theorem ascii_words : (∀ c ∈ str "null", 0 < c ∧ c < 128) ∧ (∀ c ∈ str "true", 0 < c ∧ c < 128) ∧
    (∀ c ∈ str "false", 0 < c ∧ c < 128) := by
  decide

theorem ascii_dumps {depth : Nat} : ∀ {v : Value}, Fits depth v →
    ∀ c ∈ dumps item key v, 0 < c ∧ c < 128 := by
  have bracketed : ∀ {first last : Nat} {text : Str}, 0 < first ∧ first < 128 →
      0 < last ∧ last < 128 → (∀ c ∈ text, 0 < c ∧ c < 128) →
      ∀ c ∈ [first] ++ text ++ [last], 0 < c ∧ c < 128 := by
    intro first last text plain_first plain_last plain c inside
    simp only [List.mem_append, List.mem_singleton] at inside
    rcases inside with (rfl | within) | rfl
    · exact plain_first
    · exact plain c within
    · exact plain_last
  induction depth with
  | zero =>
    intro v fits
    cases v with
    | null => exact ascii_words.1
    | bool b =>
      cases b with
      | false => exact ascii_words.2.2
      | true => exact ascii_words.2.1
    | int n => exact ascii_intText n
    | float literal => exact fits.elim
    | text s => exact ascii_quoted s
    | array elements => exact fits.elim
    | object members => exact fits.elim
  | succ depth ih =>
    intro v fits
    cases v with
    | null => exact ascii_words.1
    | bool b =>
      cases b with
      | false => exact ascii_words.2.2
      | true => exact ascii_words.2.1
    | int n => exact ascii_intText n
    | float literal => exact fits.elim
    | text s => exact ascii_quoted s
    | array elements =>
      exact bracketed (by decide) (by decide)
        (ascii_dumpsElements separators (fun v inside => ih (fits v inside)))
    | object members =>
      exact bracketed (by decide) (by decide)
        (ascii_dumpsMembers separators (fun m inside => ih (fits m inside).2))

theorem loads_dumps {depth : Nat} {v : Value} (fits : Fits depth v) :
    loads depth (asciiBytes (dumps item key v)) = .ok v := by
  have plain := ascii_dumps separators fits
  rw [loads_ascii depth (fun c inside => (plain c inside).2)
    (fun c inside => Nat.ne_of_gt (plain c inside).1), loadsText_dumps separators fits]

end Containers

end JsonText
