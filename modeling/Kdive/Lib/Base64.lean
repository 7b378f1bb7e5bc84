import Mathlib.Data.List.Basic

/-!
Base64, over the codes of the characters. The decoder goes through its text letter by letter as
`binascii.a2b_base64` does, in its strict mode or passing over what is no digit.
-/
namespace Base64

def digits : List Nat :=
  "ABCDEFGHIJKLMNOPQRSTUVWXYZabcdefghijklmnopqrstuvwxyz0123456789+/".toList.map Char.toNat

def padding : Nat := 61

def digit (n : Nat) : Nat := digits.getD n padding

def value (c : Nat) : Option Nat := if c ∈ digits then some (digits.idxOf c) else none

def byte (n : Nat) : UInt8 := UInt8.ofNat n

def encode : List UInt8 → List Nat
  | a :: b :: c :: rest =>
    digit (a.toNat / 4) :: digit (a.toNat % 4 * 16 + b.toNat / 16) ::
      digit (b.toNat % 16 * 4 + c.toNat / 64) :: digit (c.toNat % 64) :: encode rest
  | [a, b] =>
    [digit (a.toNat / 4), digit (a.toNat % 4 * 16 + b.toNat / 16), digit (b.toNat % 16 * 4), padding]
  | [a] => [digit (a.toNat / 4), digit (a.toNat % 4 * 16), padding, padding]
  | [] => []

/-- Where the decoder stands within a group of four digits: how many it has read, the bits that are
left of the last one, and the padding signs since. -/
structure Position where
  quad : Nat := 0
  left : Nat := 0
  pads : Nat := 0
  started : Bool := false

def Position.take (p : Position) (n : Nat) : List UInt8 × Position :=
  match p.quad with
  | 0 => ([], { p with quad := 1, left := n, pads := 0 })
  | 1 => ([byte (p.left * 4 + n / 16)], { p with quad := 2, left := n % 16, pads := 0 })
  | 2 => ([byte (p.left * 16 + n / 4)], { p with quad := 3, left := n % 4, pads := 0 })
  | _ => ([byte (p.left * 64 + n)], { p with quad := 0, left := 0, pads := 0 })

def decodeFrom (strict : Bool) : Position → List Nat → Option (List UInt8)
  | p, [] => if p.quad = 0 then some [] else none
  | p, c :: rest =>
    if c = padding then
      if strict && p.quad == 0 then none
      else if 2 ≤ p.quad ∧ 4 ≤ p.quad + (p.pads + 1) then
        if strict && !rest.isEmpty then none else some []
      else
        decodeFrom strict
          { p with pads := if 2 ≤ p.quad then p.pads + 1 else p.pads, started := true } rest
    else
      match value c with
      | none => if strict then none else decodeFrom strict p rest
      | some n =>
        if strict && p.started then none
        else (decodeFrom strict (p.take n).2 rest).map ((p.take n).1 ++ ·)

def decode (strict : Bool) (text : List Nat) : Option (List UInt8) := decodeFrom strict {} text

theorem value_digit {n : Nat} (small : n < 64) : value (digit n) = some n := by
  have every : ∀ k : Fin 64, value (digit k) = some k.val := by decide +kernel
  exact every ⟨n, small⟩

theorem digit_ne {n : Nat} (small : n < 64) : digit n ≠ padding := by
  have every : ∀ k : Fin 64, digit k ≠ padding := by decide +kernel
  exact every ⟨n, small⟩

theorem byte_toNat (b : UInt8) : byte b.toNat = b := UInt8.ofNat_toNat

theorem decodeFrom_digit {strict : Bool} {p : Position} {n : Nat} (small : n < 64)
    (fresh : p.started = false) (rest : List Nat) :
    decodeFrom strict p (digit n :: rest)
      = (decodeFrom strict (p.take n).2 rest).map ((p.take n).1 ++ ·) := by
  rw [decodeFrom, if_neg (digit_ne small), value_digit small]
  simp [fresh]

theorem decode_encode (strict : Bool) (bytes : List UInt8) :
    decode strict (encode bytes) = some bytes := by
  have size (b : UInt8) : b.toNat < 256 := b.toNat_lt
  unfold decode
  fun_induction encode bytes with
  | case1 a b c rest ih =>
    have := size a
    have := size b
    have := size c
    have first : a.toNat / 4 * 4 + (a.toNat % 4 * 16 + b.toNat / 16) / 16 = a.toNat := by omega
    have second : (a.toNat % 4 * 16 + b.toNat / 16) % 16 * 16 +
        (b.toNat % 16 * 4 + c.toNat / 64) / 4 = b.toNat := by omega
    have third : (b.toNat % 16 * 4 + c.toNat / 64) % 4 * 64 + c.toNat % 64 = c.toNat := by omega
    rw [decodeFrom_digit (by omega) rfl]
    simp only [Position.take]
    rw [decodeFrom_digit (by omega) rfl]
    simp only [Position.take]
    rw [decodeFrom_digit (by omega) rfl]
    simp only [Position.take]
    rw [decodeFrom_digit (by omega) rfl]
    simp only [Position.take]
    rw [ih, first, second, third]
    simp [byte_toNat]
  | case2 a b =>
    have := size a
    have := size b
    have first : a.toNat / 4 * 4 + (a.toNat % 4 * 16 + b.toNat / 16) / 16 = a.toNat := by omega
    have second : (a.toNat % 4 * 16 + b.toNat / 16) % 16 * 16 + (b.toNat % 16 * 4) / 4
        = b.toNat := by omega
    rw [decodeFrom_digit (by omega) rfl]
    simp only [Position.take]
    rw [decodeFrom_digit (by omega) rfl]
    simp only [Position.take]
    rw [decodeFrom_digit (by omega) rfl]
    simp only [Position.take, first, second, byte_toNat]
    simp [decodeFrom]
  | case3 a =>
    have := size a
    have first : a.toNat / 4 * 4 + (a.toNat % 4 * 16) / 16 = a.toNat := by omega
    rw [decodeFrom_digit (by omega) rfl]
    simp only [Position.take]
    rw [decodeFrom_digit (by omega) rfl]
    simp only [Position.take, first, byte_toNat]
    simp [decodeFrom]
  | case4 => rfl

section UrlSafe

def toUrl (c : Nat) : Nat := if c = 43 then 45 else if c = 47 then 95 else c

def ofUrl (c : Nat) : Nat := if c = 45 then 43 else if c = 95 then 47 else c

def urlsafeEncode (bytes : List UInt8) : List Nat := (encode bytes).map toUrl

def urlsafeDecode (text : List Nat) : Option (List UInt8) := decode false (text.map ofUrl)

theorem ofUrl_toUrl {c : Nat} (standard : c = padding ∨ c ∈ digits) : ofUrl (toUrl c) = c := by
  rcases standard with rfl | isDigit
  · rfl
  · have every : digits.all (fun c => ofUrl (toUrl c) == c) = true := by decide +kernel
    simpa using List.all_eq_true.mp every c isDigit

theorem digit_mem {n : Nat} (small : n < 64) : digit n ∈ digits := by
  have known := value_digit small
  unfold value at known
  split at known
  · assumption
  · cases known

theorem mem_encode (bytes : List UInt8) : ∀ c ∈ encode bytes, c = padding ∨ c ∈ digits := by
  have size (b : UInt8) : b.toNat < 256 := b.toNat_lt
  have known {n : Nat} (small : n < 64) : digit n = padding ∨ digit n ∈ digits :=
    .inr (digit_mem small)
  fun_induction encode bytes with
  | case1 a b c rest ih =>
    have := size a
    have := size b
    have := size c
    intro d isLetter
    simp only [List.mem_cons] at isLetter
    rcases isLetter with rfl | rfl | rfl | rfl | later
    · exact known (by omega)
    · exact known (by omega)
    · exact known (by omega)
    · exact known (by omega)
    · exact ih d later
  | case2 a b =>
    have := size a
    have := size b
    intro d isLetter
    simp only [List.mem_cons, List.not_mem_nil, or_false] at isLetter
    rcases isLetter with rfl | rfl | rfl | rfl
    · exact known (by omega)
    · exact known (by omega)
    · exact known (by omega)
    · exact .inl rfl
  | case3 a =>
    have := size a
    intro d isLetter
    simp only [List.mem_cons, List.not_mem_nil, or_false] at isLetter
    rcases isLetter with rfl | rfl | rfl | rfl
    · exact known (by omega)
    · exact known (by omega)
    · exact .inl rfl
    · exact .inl rfl
  | case4 => simp

theorem lt_of_mem_encode {bytes : List UInt8} {c : Nat} (isLetter : c ∈ encode bytes) : c < 128 := by
  rcases mem_encode bytes c isLetter with rfl | isDigit
  · decide
  · have every : digits.all (fun c => decide (c < 128)) = true := by decide +kernel
    simpa using List.all_eq_true.mp every c isDigit

theorem urlsafeDecode_urlsafeEncode (bytes : List UInt8) :
    urlsafeDecode (urlsafeEncode bytes) = some bytes := by
  have same : (urlsafeEncode bytes).map ofUrl = encode bytes := by
    rw [urlsafeEncode, List.map_map]
    calc (encode bytes).map (ofUrl ∘ toUrl)
      _ = (encode bytes).map id :=
        List.map_congr_left (fun c isLetter => ofUrl_toUrl (mem_encode bytes c isLetter))
      _ = encode bytes := List.map_id _
  rw [urlsafeDecode, same, decode_encode]

theorem lt_of_mem_urlsafeEncode {bytes : List UInt8} {c : Nat}
    (isLetter : c ∈ urlsafeEncode bytes) : c < 128 := by
  obtain ⟨d, isDigit, rfl⟩ := List.mem_map.mp isLetter
  have small := lt_of_mem_encode isDigit
  unfold toUrl
  split
  · decide
  split
  · decide
  · exact small

end UrlSafe

end Base64
