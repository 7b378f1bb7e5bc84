import Mathlib.Data.List.Infix

/-!
Bytes and text. `encode` is the UTF-8 encoding; `decode` is the decoder that replaces every
maximal ill-formed subsequence by one replacement character. An encoded string is found among
encoded text only where the string is in the text.
-/
namespace Utf8

theorem lawful : LawfulBEq (List Char) := inferInstance

def encode (text : List Char) : List UInt8 := text.flatMap String.utf8EncodeChar

def replacement : Char := Char.ofNat 0xFFFD

def continuation (b : UInt8) : Bool := 0x80 ≤ b && b ≤ 0xBF

def following (lead : UInt8) : Option Nat :=
  if lead < 0x80 then some 0
  else if 0xC2 ≤ lead && lead ≤ 0xDF then some 1
  else if 0xE0 ≤ lead && lead ≤ 0xEF then some 2
  else if 0xF0 ≤ lead && lead ≤ 0xF4 then some 3
  else none

def second (lead b : UInt8) : Bool :=
  if lead = 0xE0 then 0xA0 ≤ b && b ≤ 0xBF
  else if lead = 0xED then 0x80 ≤ b && b ≤ 0x9F
  else if lead = 0xF0 then 0x90 ≤ b && b ≤ 0xBF
  else if lead = 0xF4 then 0x80 ≤ b && b ≤ 0x8F
  else continuation b

def followers (lead : UInt8) (wanted : Nat) (tail : List UInt8) : List UInt8 :=
  match wanted, tail with
  | more + 1, b :: rest => if second lead b then b :: (rest.take more).takeWhile continuation else []
  | _, _ => []

def leadBits (lead : UInt8) (wanted : Nat) : Nat :=
  match wanted with
  | 0 => lead.toNat
  | 1 => lead.toNat % 32
  | 2 => lead.toNat % 16
  | _ => lead.toNat % 8

def codePoint (lead : UInt8) (more : List UInt8) : Nat :=
  more.foldl (fun n b => n * 64 + b.toNat % 64) (leadBits lead more.length)

def decodeChar (lead : UInt8) (tail : List UInt8) : Char × Nat :=
  match following lead with
  | none => (replacement, 0)
  | some wanted =>
    let more := followers lead wanted tail
    if more.length = wanted then (Char.ofNat (codePoint lead more), wanted)
    else (replacement, more.length)

def decodeFrom : Nat → List UInt8 → List Char
  | _, [] => []
  | skip + 1, _ :: rest => decodeFrom skip rest
  | 0, lead :: rest =>
    let next := decodeChar lead rest
    next.1 :: decodeFrom next.2 rest

def decode (bytes : List UInt8) : List Char := decodeFrom 0 bytes

@[simp] theorem encode_nil : encode [] = [] := rfl

@[simp] theorem encode_cons (c : Char) (text : List Char) :
    encode (c :: text) = String.utf8EncodeChar c ++ encode text := rfl

@[simp] theorem encode_append (left right : List Char) :
    encode (left ++ right) = encode left ++ encode right := List.flatMap_append

theorem encode_flatten (texts : List (List Char)) :
    encode texts.flatten = (texts.map encode).flatten := by
  induction texts with
  | nil => rfl
  | cons text texts ih => simp [ih]

section SelfSynchronising

theorem utf8EncodeChar_append_inj {c d : Char} {x y : List UInt8}
    (same : String.utf8EncodeChar c ++ x = String.utf8EncodeChar d ++ y) : c = d ∧ x = y := by
  have bytes : (String.utf8EncodeChar c).toByteArray ++ x.toByteArray
      = (String.utf8EncodeChar d).toByteArray ++ y.toByteArray := by
    rw [← List.toByteArray_append, ← List.toByteArray_append, same]
  have first : some c = some d := by
    rw [← ByteArray.utf8DecodeChar?_utf8EncodeChar_append (b := x.toByteArray), bytes,
      ByteArray.utf8DecodeChar?_utf8EncodeChar_append]
  obtain rfl : c = d := Option.some.inj first
  exact ⟨rfl, List.append_cancel_left same⟩

theorem exists_lead (c : Char) :
    ∃ lead more, String.utf8EncodeChar c = lead :: more ∧ lead.IsUTF8FirstByte ∧
      ∀ b ∈ more, ¬ b.IsUTF8FirstByte := by
  have size := c.utf8Size_pos
  rw [← String.length_utf8EncodeChar] at size
  obtain ⟨lead, more, bytes⟩ := List.exists_cons_of_length_pos size
  have isFirst (i : Nat) (inside : i < (String.utf8EncodeChar c).length) :
      (String.utf8EncodeChar c)[i].IsUTF8FirstByte ↔ i = 0 :=
    UInt8.isUTF8FirstByte_getElem_utf8EncodeChar
  simp only [bytes] at isFirst
  refine ⟨lead, more, bytes, (isFirst 0 (by simp)).mpr rfl, ?_⟩
  intro b isMore starts
  obtain ⟨i, inside, rfl⟩ := List.mem_iff_getElem.mp isMore
  have := (isFirst (i + 1) (by simpa using inside)).mp (by simpa using starts)
  omega

theorem prefix_of_encode {s t : List Char} (lead : encode s <+: encode t) : s <+: t := by
  induction s generalizing t with
  | nil => exact List.nil_prefix
  | cons c s ih =>
    obtain ⟨rest, whole⟩ := lead
    cases t with
    | nil =>
      obtain ⟨b, more, bytes, _⟩ := exists_lead c
      simp [bytes] at whole
    | cons d t =>
      simp only [encode_cons, List.append_assoc] at whole
      obtain ⟨rfl, same⟩ := utf8EncodeChar_append_inj whole
      exact List.prefix_cons_iff.mpr (.inr ⟨s, rfl, ih ⟨rest, same⟩⟩)

theorem exists_split_of_lead {text : List Char} {before after : List UInt8} {lead : UInt8}
    (starts : lead.IsUTF8FirstByte) (whole : encode text = before ++ lead :: after) :
    ∃ front back, text = front ++ back ∧ lead :: after = encode back := by
  induction text generalizing before with
  | nil => simp at whole
  | cons c text ih =>
    obtain ⟨first, more, bytes, _, others⟩ := exists_lead c
    rw [encode_cons] at whole
    rcases List.append_eq_append_iff.mp whole with ⟨gap, rfl, rest⟩ | ⟨gap, inside, rest⟩
    · obtain ⟨front, back, rfl, same⟩ := ih rest
      exact ⟨c :: front, back, rfl, same⟩
    · cases gap with
      | nil =>
        have rest : encode text = [] ++ lead :: after := by simpa using rest.symm
        obtain ⟨front, back, rfl, same⟩ := ih rest
        exact ⟨c :: front, back, rfl, same⟩
      | cons b gap =>
        obtain ⟨rfl, tail⟩ : lead = b ∧ after = gap ++ encode text := by simpa using rest
        cases before with
        | nil =>
          refine ⟨[], c :: text, rfl, ?_⟩
          simp only [List.nil_append] at inside
          simp [inside, tail]
        | cons x before =>
          rw [bytes, List.cons_append, List.cons.injEq] at inside
          exact absurd starts (others lead (by simp [inside.2]))

theorem infix_of_encode {s t : List Char} (found : encode s <:+: encode t) : s <:+: t := by
  cases s with
  | nil => exact List.nil_infix
  | cons c s =>
    obtain ⟨before, after, whole⟩ := found
    obtain ⟨lead, more, bytes, starts, _⟩ := exists_lead c
    have split : encode t = before ++ lead :: (more ++ encode s ++ after) := by
      simp [← whole, bytes]
    obtain ⟨front, back, rfl, same⟩ := exists_split_of_lead starts split
    have leads : encode (c :: s) <+: encode back := ⟨after, by simp [← same, bytes]⟩
    exact (prefix_of_encode leads).isInfix.trans (List.suffix_append front back).isInfix

theorem mem_of_mem_encode {c : Char} {text : List Char} {b : UInt8} (single : encode [c] = [b])
    (found : b ∈ encode text) : c ∈ text := by
  have inside : encode [c] <:+: encode text := by
    obtain ⟨before, after, whole⟩ := List.append_of_mem found
    exact ⟨before, after, by simp [single, whole]⟩
  exact (infix_of_encode inside).mem (by simp)

end SelfSynchronising

section Ascii

def Ascii (bytes : List UInt8) : Prop := ∀ b ∈ bytes, b < 0x80

theorem ascii_of_all {bytes : List UInt8} (every : bytes.all (fun b => decide (b < 0x80)) = true) :
    Ascii bytes := by
  intro b isByte
  exact of_decide_eq_true (List.all_eq_true.mp every b isByte)

def toChar (b : UInt8) : Char := Char.ofNat b.toNat

def toByte (c : Char) : UInt8 := UInt8.ofNat c.toNat

theorem decode_ascii {bytes : List UInt8} (ascii : Ascii bytes) :
    decode bytes = bytes.map toChar := by
  induction bytes with
  | nil => rfl
  | cons b rest ih =>
    have single : decodeChar b rest = (toChar b, 0) := by
      have small : b < 0x80 := ascii b List.mem_cons_self
      simp [decodeChar, following, small, followers, codePoint, leadBits, toChar]
    have others : decodeFrom 0 rest = rest.map toChar :=
      ih (fun x isMore => ascii x (List.mem_cons_of_mem b isMore))
    simp [decode, decodeFrom, single, others]

theorem toNat_toChar {b : UInt8} (small : b < 0x80) : (toChar b).toNat = b.toNat := by
  have bound : b.toNat < 128 := small
  have valid : b.toNat.isValidChar := .inl (by omega)
  unfold toChar Char.ofNat
  rw [dif_pos valid]
  rfl

theorem toByte_toChar {b : UInt8} (small : b < 0x80) : toByte (toChar b) = b := by
  simp [toByte, toNat_toChar small]

theorem map_toByte_toChar {bytes : List UInt8} (ascii : Ascii bytes) :
    (bytes.map toChar).map toByte = bytes := by
  rw [List.map_map]
  calc bytes.map (toByte ∘ toChar)
    _ = bytes.map id := List.map_congr_left (fun b isByte => toByte_toChar (ascii b isByte))
    _ = bytes := List.map_id bytes

theorem toByte_lt {c : Char} (small : c.toNat < 128) : toByte c < 0x80 := by
  have value : (toByte c).toNat = c.toNat := by
    simp only [toByte, UInt8.toNat_ofNat']
    omega
  have bound : (toByte c).toNat < 128 := by omega
  exact bound

theorem encode_ascii {text : List Char} (ascii : ∀ c ∈ text, c.toNat < 128) :
    encode text = text.map toByte := by
  induction text with
  | nil => rfl
  | cons c rest ih =>
    have small : c.val ≤ 127 := by
      have := ascii c List.mem_cons_self
      have bound : c.val.toNat < 128 := this
      exact UInt32.le_iff_toNat_le.mpr (by simpa using Nat.le_of_lt_succ bound)
    have single : String.utf8EncodeChar c = [toByte c] :=
      String.utf8EncodeChar_eq_singleton (Char.utf8Size_eq_one_iff.mpr small)
    rw [encode_cons, single, ih (fun x isMore => ascii x (List.mem_cons_of_mem c isMore))]
    rfl

end Ascii

section RoundTrip

theorem following_ofNat {k : Nat} (small : k < 256) : following (UInt8.ofNat k) =
    if k < 0x80 then some 0 else if 0xC2 ≤ k ∧ k ≤ 0xDF then some 1
    else if 0xE0 ≤ k ∧ k ≤ 0xEF then some 2 else if 0xF0 ≤ k ∧ k ≤ 0xF4 then some 3 else none := by
  simp [following, UInt8.lt_iff_toNat_lt, UInt8.le_iff_toNat_le, Nat.mod_eq_of_lt small]

theorem toNat_ofNat {k : Nat} (small : k < 256) : (UInt8.ofNat k).toNat = k := by
  rw [UInt8.toNat_ofNat', Nat.mod_eq_of_lt small]

theorem continuation_ofNat {k : Nat} (small : k < 64) :
    continuation (UInt8.ofNat (k + 128)) = true := by
  have value := toNat_ofNat (show k + 128 < 256 by omega)
  simp only [continuation, Bool.and_eq_true, decide_eq_true_eq, UInt8.le_iff_toNat_le, value]
  exact ⟨Nat.le_add_left 128 k, show k + 128 ≤ 191 by omega⟩

theorem second_ofNat {l k : Nat} (lead : l < 256) (small : k < 64) (low : l = 0xE0 → 0x20 ≤ k)
    (noSurrogate : l = 0xED → k < 0x20) (planes : l = 0xF0 → 0x10 ≤ k) (high : l = 0xF4 → k < 0x10) :
    second (UInt8.ofNat l) (UInt8.ofNat (k + 128)) = true := by
  have same (n : Nat) (bound : n < 256) (is : UInt8.ofNat l = UInt8.ofNat n) : l = n := by
    rw [← toNat_ofNat lead, is, toNat_ofNat bound]
  have value := toNat_ofNat (show k + 128 < 256 by omega)
  have between (low high : Nat) (lowByte : low < 256) (highByte : high < 256)
      (above : low ≤ k + 128) (below : k + 128 ≤ high) :
      (decide (UInt8.ofNat low ≤ UInt8.ofNat (k + 128)) &&
        decide (UInt8.ofNat (k + 128) ≤ UInt8.ofNat high)) = true := by
    simp only [Bool.and_eq_true, decide_eq_true_eq, UInt8.le_iff_toNat_le, value,
      toNat_ofNat lowByte, toNat_ofNat highByte]
    exact ⟨above, below⟩
  unfold second
  split
  · rename_i is
    have := low (same 0xE0 (by decide) is)
    exact between 0xA0 0xBF (by decide) (by decide) (by omega) (by omega)
  · split
    · rename_i is
      have := noSurrogate (same 0xED (by decide) is)
      exact between 0x80 0x9F (by decide) (by decide) (by omega) (by omega)
    · split
      · rename_i is
        have := planes (same 0xF0 (by decide) is)
        exact between 0x90 0xBF (by decide) (by decide) (by omega) (by omega)
      · split
        · rename_i is
          have := high (same 0xF4 (by decide) is)
          exact between 0x80 0x8F (by decide) (by decide) (by omega) (by omega)
        · exact continuation_ofNat small

section Bytes

variable {lead b c d : UInt8}

theorem decodeChar_one (wanted : following lead = some 0) (tail : List UInt8) :
    decodeChar lead tail = (Char.ofNat lead.toNat, 0) := by
  simp [decodeChar, wanted, followers, codePoint, leadBits]

theorem decodeChar_two (wanted : following lead = some 1) (next : second lead b = true)
    (tail : List UInt8) :
    decodeChar lead (b :: tail) = (Char.ofNat (lead.toNat % 32 * 64 + b.toNat % 64), 1) := by
  simp [decodeChar, wanted, followers, next, codePoint, leadBits]

theorem decodeChar_three (wanted : following lead = some 2) (next : second lead b = true)
    (third : continuation c = true) (tail : List UInt8) : decodeChar lead (b :: c :: tail)
      = (Char.ofNat ((lead.toNat % 16 * 64 + b.toNat % 64) * 64 + c.toNat % 64), 2) := by
  simp [decodeChar, wanted, followers, next, third, codePoint, leadBits]

theorem decodeChar_four (wanted : following lead = some 3) (next : second lead b = true)
    (third : continuation c = true) (fourth : continuation d = true) (tail : List UInt8) :
    decodeChar lead (b :: c :: d :: tail) = (Char.ofNat
      (((lead.toNat % 8 * 64 + b.toNat % 64) * 64 + c.toNat % 64) * 64 + d.toNat % 64), 3) := by
  simp [decodeChar, wanted, followers, next, third, fourth, codePoint, leadBits]

end Bytes

theorem decodeChar_encode (c : Char) (tail : List UInt8) : ∃ lead more,
    String.utf8EncodeChar c = lead :: more ∧ decodeChar lead (more ++ tail) = (c, more.length) := by
  have isChar : Char.ofNat c.val.toNat = c := Char.ofNat_toNat c
  have valid : c.val.toNat < 0xD800 ∨ 0xDFFF < c.val.toNat ∧ c.val.toNat < 0x110000 := c.valid
  fun_cases String.utf8EncodeChar c
  case case1 v small =>
    refine ⟨_, [], rfl, ?_⟩
    have wanted : following (UInt8.ofNat v) = some 0 := by
      rw [following_ofNat (by omega), if_pos (by omega)]
    rw [decodeChar_one wanted, toNat_ofNat (by omega)]
    exact congrArg (·, 0) isChar
  case case2 v big small =>
    refine ⟨_, _, rfl, ?_⟩
    have wanted : following (UInt8.ofNat (v / 64 % 32 + 192)) = some 1 := by
      rw [following_ofNat (by omega), if_neg (by omega), if_pos (by omega)]
    have next : second (UInt8.ofNat (v / 64 % 32 + 192)) (UInt8.ofNat (v % 64 + 128)) = true :=
      second_ofNat (by omega) (by omega) (by omega) (by omega) (by omega) (by omega)
    have whole : (v / 64 % 32 + 192) % 32 * 64 + (v % 64 + 128) % 64 = v := by omega
    rw [List.singleton_append, decodeChar_two wanted next, toNat_ofNat (by omega),
      toNat_ofNat (by omega), whole]
    exact congrArg (·, 1) isChar
  case case3 v big bigger small =>
    refine ⟨_, _, rfl, ?_⟩
    have wanted : following (UInt8.ofNat (v / 4096 % 16 + 224)) = some 2 := by
      rw [following_ofNat (by omega), if_neg (by omega), if_neg (by omega), if_pos (by omega)]
    have next : second (UInt8.ofNat (v / 4096 % 16 + 224)) (UInt8.ofNat (v / 64 % 64 + 128)) = true :=
      second_ofNat (by omega) (by omega) (by omega) (by omega) (by omega) (by omega)
    have whole : ((v / 4096 % 16 + 224) % 16 * 64 + (v / 64 % 64 + 128) % 64) * 64
        + (v % 64 + 128) % 64 = v := by omega
    rw [List.cons_append, List.singleton_append, decodeChar_three wanted next
      (continuation_ofNat (by omega)), toNat_ofNat (by omega), toNat_ofNat (by omega),
      toNat_ofNat (by omega), whole]
    exact congrArg (·, 2) isChar
  case case4 v big bigger biggest =>
    refine ⟨_, _, rfl, ?_⟩
    have wanted : following (UInt8.ofNat (v / 262144 % 8 + 240)) = some 3 := by
      rw [following_ofNat (by omega), if_neg (by omega), if_neg (by omega), if_neg (by omega),
        if_pos (by omega)]
    have next : second (UInt8.ofNat (v / 262144 % 8 + 240)) (UInt8.ofNat (v / 4096 % 64 + 128))
        = true := second_ofNat (by omega) (by omega) (by omega) (by omega) (by omega) (by omega)
    have whole : (((v / 262144 % 8 + 240) % 8 * 64 + (v / 4096 % 64 + 128) % 64) * 64
        + (v / 64 % 64 + 128) % 64) * 64 + (v % 64 + 128) % 64 = v := by omega
    rw [List.cons_append, List.cons_append, List.singleton_append, decodeChar_four wanted next
      (continuation_ofNat (by omega)) (continuation_ofNat (by omega)), toNat_ofNat (by omega),
      toNat_ofNat (by omega), toNat_ofNat (by omega), toNat_ofNat (by omega), whole]
    exact congrArg (·, 3) isChar

theorem decodeFrom_skip (more tail : List UInt8) :
    decodeFrom more.length (more ++ tail) = decodeFrom 0 tail := by
  induction more with
  | nil => rfl
  | cons b more ih => exact ih

theorem decode_encode_append (text : List Char) (tail : List UInt8) :
    decode (encode text ++ tail) = text ++ decode tail := by
  induction text with
  | nil => rfl
  | cons c text ih =>
    obtain ⟨lead, more, bytes, decoded⟩ := decodeChar_encode c (encode text ++ tail)
    rw [encode_cons, bytes]
    simp only [List.cons_append, List.append_assoc, decode, decodeFrom, decoded, decodeFrom_skip]
    rw [← decode, ih]
    rfl

theorem decode_encode (text : List Char) : decode (encode text) = text := by
  have whole := decode_encode_append text []
  simpa [decode, decodeFrom] using whole

theorem eq_nil_of_length_encode {text : List Char} (empty : (encode text).length = 0) :
    text = [] := by
  rw [← decode_encode text, List.length_eq_zero_iff.mp empty]
  rfl

end RoundTrip

section Boundaries

def Boundary (text : List Char) (i : Nat) : Prop :=
  ∃ front back, text = front ++ back ∧ (encode front).length = i

def starts (bytes : List UInt8) : Nat := bytes.countP (fun b => !continuation b)

theorem encodeChar_shape (c : Char) : ∃ lead more, String.utf8EncodeChar c = lead :: more ∧
    continuation lead = false ∧ ∀ b ∈ more, continuation b = true := by
  have below {k : Nat} (small : k < 128) : continuation (UInt8.ofNat k) = false := by
    have value := toNat_ofNat (show k < 256 by omega)
    simp only [continuation, Bool.and_eq_false_iff, decide_eq_false_iff_not,
      UInt8.le_iff_toNat_le, value]
    exact .inl (show ¬ 128 ≤ k by omega)
  have above {k : Nat} (big : 192 ≤ k) (small : k < 256) : continuation (UInt8.ofNat k) = false := by
    have value := toNat_ofNat small
    simp only [continuation, Bool.and_eq_false_iff, decide_eq_false_iff_not,
      UInt8.le_iff_toNat_le, value]
    exact .inr (show ¬ k ≤ 191 by omega)
  fun_cases String.utf8EncodeChar c
  case case1 v small => exact ⟨_, [], rfl, below (by omega), by simp⟩
  case case2 v _ small =>
    refine ⟨_, _, rfl, above (by omega) (by omega), ?_⟩
    intro b isMore
    rw [List.mem_singleton.mp isMore]
    exact continuation_ofNat (by omega)
  case case3 v _ _ small =>
    refine ⟨_, _, rfl, above (by omega) (by omega), ?_⟩
    intro b isMore
    simp only [List.mem_cons, List.not_mem_nil, or_false] at isMore
    rcases isMore with rfl | rfl
    · exact continuation_ofNat (by omega)
    · exact continuation_ofNat (by omega)
  case case4 v _ _ _ =>
    refine ⟨_, _, rfl, above (by omega) (by omega), ?_⟩
    intro b isMore
    simp only [List.mem_cons, List.not_mem_nil, or_false] at isMore
    rcases isMore with rfl | rfl | rfl
    · exact continuation_ofNat (by omega)
    · exact continuation_ofNat (by omega)
    · exact continuation_ofNat (by omega)

theorem starts_encode (text : List Char) : starts (encode text) = text.length := by
  induction text with
  | nil => rfl
  | cons c text ih =>
    obtain ⟨lead, more, bytes, isLead, isMore⟩ := encodeChar_shape c
    have none : more.countP (fun b => !continuation b) = 0 := by
      rw [List.countP_eq_zero]
      intro b inside
      simp [isMore b inside]
    rw [starts] at ih ⊢
    rw [encode_cons, bytes, List.countP_append, List.countP_cons, none, ih, isLead]
    simp
    omega

theorem boundary_or_continuation {text : List Char} {i : Nat} (inside : i ≤ (encode text).length) :
    Boundary text i ∨ ∃ b rest, (encode text).drop i = b :: rest ∧ continuation b = true := by
  induction text generalizing i with
  | nil =>
    left
    refine ⟨[], [], rfl, ?_⟩
    simp only [encode_nil, List.length_nil] at inside ⊢
    omega
  | cons c text ih =>
    obtain ⟨lead, more, bytes, _, isMore⟩ := encodeChar_shape c
    rw [encode_cons] at inside ⊢
    rcases Nat.lt_or_ge i (String.utf8EncodeChar c).length with within | beyond
    · cases i with
      | zero => exact .inl ⟨[], c :: text, rfl, rfl⟩
      | succ i =>
        right
        rw [bytes] at within ⊢
        have some : i < more.length := by simpa using within
        refine ⟨more[i], more.drop (i + 1) ++ encode text, ?_, isMore _ (List.getElem_mem some)⟩
        rw [List.cons_append, List.drop_succ_cons, List.drop_append_of_le_length (by omega),
          List.drop_eq_getElem_cons some, List.cons_append]
    · obtain ⟨k, rfl⟩ := Nat.exists_eq_add_of_le beyond
      rw [List.length_append] at inside
      rw [← List.drop_drop, List.drop_left]
      rcases ih (by omega : k ≤ (encode text).length) with ⟨front, back, rfl, size⟩ | found
      · left
        exact ⟨c :: front, back, rfl, by rw [encode_cons, List.length_append, size]⟩
      · exact .inr found

theorem following_continuation {b : UInt8} (isMore : continuation b = true) : following b = none := by
  simp only [continuation, Bool.and_eq_true, decide_eq_true_eq, UInt8.le_iff_toNat_le] at isMore
  have low : 128 ≤ b.toNat := isMore.1
  have high : b.toNat ≤ 191 := isMore.2
  have value : b = UInt8.ofNat b.toNat := UInt8.ofNat_toNat.symm
  rw [value, following_ofNat b.toNat_lt]
  rw [if_neg (by omega), if_neg (by omega), if_neg (by omega), if_neg (by omega)]

theorem continuation_of_second {lead b : UInt8} (isSecond : second lead b = true) :
    continuation b = true := by
  have within (low high : UInt8) (above : 0x80 ≤ low) (below : high ≤ 0xBF)
      (between : (decide (low ≤ b) && decide (b ≤ high)) = true) : continuation b = true := by
    simp only [Bool.and_eq_true, decide_eq_true_eq] at between
    simp only [continuation, Bool.and_eq_true, decide_eq_true_eq]
    exact ⟨UInt8.le_trans above between.1, UInt8.le_trans between.2 below⟩
  unfold second at isSecond
  split at isSecond
  · exact within _ _ (by decide) (by decide) isSecond
  · split at isSecond
    · exact within _ _ (by decide) (by decide) isSecond
    · split at isSecond
      · exact within _ _ (by decide) (by decide) isSecond
      · split at isSecond
        · exact within _ _ (by decide) (by decide) isSecond
        · exact isSecond

theorem decodeChar_takes (lead : UInt8) (tail : List UInt8) :
    ∀ b ∈ tail.take (decodeChar lead tail).2, continuation b = true := by
  have shape (wanted : Nat) : followers lead wanted tail <+: tail ∧
      ∀ b ∈ followers lead wanted tail, continuation b = true := by
    unfold followers
    split
    · rename_i more b rest
      split
      · rename_i isSecond
        constructor
        · exact List.cons_prefix_cons.mpr ⟨rfl, (List.takeWhile_prefix _).trans (List.take_prefix _ _)⟩
        · intro x isMore
          rcases List.mem_cons.mp isMore with rfl | later
          · exact continuation_of_second isSecond
          · exact List.all_eq_true.mp List.all_takeWhile x later
      · exact ⟨List.nil_prefix, by simp⟩
    · exact ⟨List.nil_prefix, by simp⟩
  unfold decodeChar
  split
  · simp
  · rename_i wanted _
    obtain ⟨lead', all⟩ := shape wanted
    have taken : tail.take (followers lead wanted tail).length = followers lead wanted tail :=
      (List.prefix_iff_eq_take.mp lead').symm
    dsimp only
    split
    · rename_i full
      rw [← full, taken]
      exact all
    · rw [taken]
      exact all

theorem starts_le_length_decodeFrom (bytes : List UInt8) :
    ∀ skip, (∀ b ∈ bytes.take skip, continuation b = true) →
      starts bytes ≤ (decodeFrom skip bytes).length := by
  induction bytes with
  | nil =>
    intro skip _
    simp [starts]
  | cons b rest ih =>
    intro skip passed
    cases skip with
    | succ skip =>
      have isMore : continuation b = true := passed b (by simp)
      have same : starts (b :: rest) = starts rest := by simp [starts, isMore]
      rw [same, decodeFrom]
      exact ih skip (fun x inside => passed x (by simp [inside]))
    | zero =>
      have some : starts (b :: rest) ≤ starts rest + 1 := by
        rw [starts, List.countP_cons, starts]
        split <;> omega
      have more := ih _ (decodeChar_takes b rest)
      rw [decodeFrom, List.length_cons]
      omega

theorem starts_lt_length_decode {b : UInt8} (isMore : continuation b = true) (rest : List UInt8) :
    starts (b :: rest) < (decode (b :: rest)).length := by
  have single : decodeChar b rest = (replacement, 0) := by
    rw [decodeChar, following_continuation isMore]
  have same : starts (b :: rest) = starts rest := by simp [starts, isMore]
  have more := starts_le_length_decodeFrom rest 0 (by simp)
  rw [decode, decodeFrom, single, List.length_cons, same]
  exact Nat.lt_succ_of_le more

theorem starts_flatten_le (pieces : List (List UInt8)) :
    starts pieces.flatten ≤ (pieces.map decode).flatten.length := by
  induction pieces with
  | nil => simp [starts]
  | cons piece pieces ih =>
    have first := starts_le_length_decodeFrom piece 0 (by simp)
    have whole : starts (piece ++ pieces.flatten) = starts piece + starts pieces.flatten :=
      List.countP_append
    rw [List.flatten_cons, whole, List.map_cons, List.flatten_cons, List.length_append]
    rw [← decode] at first
    omega

theorem starts_flatten_lt {pieces : List (List UInt8)} {b : UInt8} {rest : List UInt8}
    (cut : pieces.flatten = b :: rest) (isMore : continuation b = true) :
    starts pieces.flatten < (pieces.map decode).flatten.length := by
  induction pieces with
  | nil => simp at cut
  | cons piece pieces ih =>
    have whole : starts (piece ++ pieces.flatten) = starts piece + starts pieces.flatten :=
      List.countP_append
    rw [List.flatten_cons, whole, List.map_cons, List.flatten_cons, List.length_append]
    cases piece with
    | nil =>
      have rest := ih (by simpa using cut)
      have none : starts [] = 0 := rfl
      omega
    | cons c piece =>
      obtain rfl : c = b := by simp at cut; exact cut.1
      have first := starts_lt_length_decode isMore piece
      have others := starts_flatten_le pieces
      omega

theorem boundary_append {front back : List Char} {k : Nat}
    (between : Boundary (front ++ back) ((encode front).length + k)) : Boundary back k := by
  obtain ⟨front', back', whole, size⟩ := between
  rcases List.append_eq_append_iff.mp whole with ⟨gap, rfl, rfl⟩ | ⟨gap, rfl, rfl⟩
  · rw [encode_append, List.length_append] at size
    exact ⟨gap, back', rfl, by omega⟩
  · rw [encode_append, List.length_append] at size
    have empty : (encode gap).length = 0 := by omega
    exact ⟨[], back, rfl, by simp; omega⟩

/-- Pieces of an encoded text decode to it one by one exactly when no cut is inside a character. -/
theorem decode_pieces_iff {pieces : List (List UInt8)} {text : List Char}
    (whole : pieces.flatten = encode text) : (pieces.map decode).flatten = text ↔
      ∀ before after, pieces = before ++ after → Boundary text before.flatten.length := by
  constructor
  · rintro same before after rfl
    have inside : before.flatten.length ≤ (encode text).length := by
      rw [← whole, List.flatten_append, List.length_append]
      omega
    rcases boundary_or_continuation inside with between | ⟨b, rest, cut, isMore⟩
    · exact between
    · -- the count of characters gives the cut away
      rw [← whole, List.flatten_append, List.drop_left] at cut
      have first := starts_flatten_le before
      have second := starts_flatten_lt cut isMore
      have size := congrArg List.length same
      have count : starts (before.flatten ++ after.flatten)
          = starts before.flatten + starts after.flatten := List.countP_append
      have total := starts_encode text
      rw [← whole, List.flatten_append, count] at total
      rw [List.map_append, List.flatten_append, List.length_append] at size
      omega
  · intro cuts
    induction pieces generalizing text with
    | nil =>
      have empty : encode text <+: encode [] := by simp [← whole]
      simp [List.prefix_nil.mp (prefix_of_encode empty)]
    | cons piece pieces ih =>
      obtain ⟨front, back, rfl, size⟩ := cuts [piece] pieces rfl
      rw [List.flatten_cons, encode_append] at whole
      obtain ⟨rfl, rest⟩ := List.append_inj whole (by simpa using size.symm)
      have others := ih rest (by
        rintro before after rfl
        have between := cuts (encode front :: before) after rfl
        rw [List.flatten_cons, List.length_append] at between
        exact boundary_append between)
      rw [List.map_cons, List.flatten_cons, decode_encode, others]

theorem Boundary.split {text : List Char} {i j : Nat} (first : Boundary text i)
    (second : Boundary text j) (ordered : i ≤ j) : ∃ front piece back,
      text = front ++ (piece ++ back) ∧ (encode front).length = i ∧
        (encode front).length + (encode piece).length = j := by
  obtain ⟨front, rest, rfl, rfl⟩ := first
  obtain ⟨k, rfl⟩ := Nat.exists_eq_add_of_le ordered
  obtain ⟨piece, back, rfl, rfl⟩ := boundary_append second
  exact ⟨front, piece, back, rfl, rfl, rfl⟩

theorem split_of_encode {text piece : List Char} {before after : List UInt8} (filled : piece ≠ [])
    (whole : encode text = before ++ (encode piece ++ after)) :
    ∃ front back, text = front ++ (piece ++ back) ∧ encode front = before ∧ encode back = after := by
  obtain ⟨c, others, rfl⟩ := List.exists_cons_of_ne_nil filled
  obtain ⟨lead, more, bytes, starts, _⟩ := exists_lead c
  have atLead : encode text = before ++ lead :: (more ++ (encode others ++ after)) := by
    rw [whole, encode_cons, bytes]
    simp
  obtain ⟨front, back, rfl, same⟩ := exists_split_of_lead starts atLead
  have here : encode back = encode (c :: others) ++ after := by
    rw [← same, encode_cons, bytes]
    simp
  have decoded : back = c :: others ++ decode after := by
    rw [← decode_encode back, here, decode_encode_append]
  refine ⟨front, decode after, ?_, ?_, ?_⟩
  · rw [decoded]
  · rw [encode_append, here] at whole
    exact List.append_cancel_right whole
  · rw [decoded, encode_append] at here
    exact List.append_cancel_left here

end Boundaries

section Seams

/-- No character begins in the first bytes and takes some of the others. -/
def Uncut : List UInt8 → List UInt8 → Prop
  | [], _ => True
  | lead :: more, later => (decodeChar lead (more ++ later)).2 ≤ more.length ∧ Uncut more later

instance decidableUncut : ∀ first second : List UInt8, Decidable (Uncut first second)
  | [], _ => isTrue trivial
  | _ :: more, later => @instDecidableAnd _ _ _ (decidableUncut more later)

theorem followers_within {lead : UInt8} {wanted : Nat} {more later : List UInt8}
    (within : (followers lead wanted (more ++ later)).length ≤ more.length) :
    followers lead wanted (more ++ later) = followers lead wanted more := by
  cases wanted with
  | zero => simp [followers]
  | succ wanted =>
    cases more with
    | nil =>
      have none : followers lead (wanted + 1) ([] ++ later) = [] :=
        List.eq_nil_of_length_eq_zero (Nat.le_zero.mp within)
      rw [none]
      rfl
    | cons b rest =>
      rw [List.cons_append] at within ⊢
      simp only [followers] at within ⊢
      split at within
      · rename_i isSecond
        rw [if_pos isSecond, if_pos isSecond]
        have short : (((rest ++ later).take wanted).takeWhile continuation).length ≤ rest.length := by
          simpa using within
        rw [List.take_append] at short ⊢
        rw [List.takeWhile_append] at short ⊢
        split at short
        · rename_i all
          rw [if_pos all]
          have none : ((later.take (wanted - rest.length)).takeWhile continuation) = [] := by
            rw [List.length_append, List.length_take] at short
            refine List.eq_nil_of_length_eq_zero ?_
            have bound := (List.takeWhile_prefix (p := continuation)
              (l := later.take (wanted - rest.length))).length_le
            rw [List.length_take] at bound
            omega
          have whole := (List.takeWhile_prefix (p := continuation) (l := rest.take wanted)).eq_of_length all
          rw [none, List.append_nil, whole]
        · rename_i some
          rw [if_neg some]
      · rename_i other
        rw [if_neg other, if_neg other]

theorem decodeChar_within {lead : UInt8} {more later : List UInt8}
    (within : (decodeChar lead (more ++ later)).2 ≤ more.length) :
    decodeChar lead (more ++ later) = decodeChar lead more := by
  rw [decodeChar] at within
  rw [decodeChar, decodeChar]
  cases known : following lead with
  | none => rfl
  | some wanted =>
    rw [known] at within
    dsimp only at within ⊢
    have short : (followers lead wanted (more ++ later)).length ≤ more.length := by
      split at within
      · rename_i full
        rw [full]
        exact within
      · exact within
    rw [followers_within short]

theorem decodeFrom_append {first second : List UInt8} (uncut : Uncut first second) :
    ∀ skip ≤ first.length, decodeFrom skip (first ++ second) = decodeFrom skip first ++ decode second := by
  induction first with
  | nil =>
    intro skip bound
    obtain rfl := Nat.le_zero.mp bound
    rfl
  | cons lead more ih =>
    intro skip bound
    cases skip with
    | succ skip => exact ih uncut.2 skip (Nat.le_of_succ_le_succ bound)
    | zero =>
      have same := decodeChar_within uncut.1
      rw [List.cons_append, decodeFrom, decodeFrom, ih uncut.2 _ uncut.1, same]
      rfl

theorem decode_append {first second : List UInt8} (uncut : Uncut first second) :
    decode (first ++ second) = decode first ++ decode second :=
  decodeFrom_append uncut 0 (Nat.zero_le _)

end Seams

end Utf8
