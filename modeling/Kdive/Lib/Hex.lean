import Mathlib.Data.List.Basic

/-!
Hexadecimal texts as Python's `bytes.fromhex` reads them.
-/
namespace Hex

def digit (c : Char) : Option Nat :=
  if c.isDigit then some (c.toNat - '0'.toNat)
  else if 'a' ≤ c ∧ c ≤ 'f' then some (c.toNat - 'a'.toNat + 10)
  else if 'A' ≤ c ∧ c ≤ 'F' then some (c.toNat - 'A'.toNat + 10)
  else none

def isAsciiSpace (c : Char) : Bool := (9 ≤ c.toNat && c.toNat ≤ 13) || c == ' '

def decode : List Char → Option (List UInt8)
  | [] => some []
  | c :: rest =>
    if isAsciiSpace c then decode rest
    else match rest with
      | [] => none
      | d :: rest => do
        let high ← digit c
        let low ← digit d
        return UInt8.ofNat (16 * high + low) :: (← decode rest)

end Hex
