/-!
# Hexadecimal text

Numbers in base sixteen, in the three shapes that messages and listings
use: bare, padded with zeros to a least width, and padded in capitals. Bytes
are written as two digits each. Digits of either case can be read back.
-/

namespace Reroute.Text

/-- A digit string filled up with zeros on the left. -/
def padZeros (width : Nat) (digits : List Char) : String :=
  String.ofList (List.replicate (width - digits.length) '0' ++ digits)

/-- The lowercase digits of a number, without a mark in front. -/
def hex (n : Nat) : String := String.ofList (Nat.toDigits 16 n)

/-- At least `width` lowercase digits. -/
def hexPadded (width n : Nat) : String := padZeros width (Nat.toDigits 16 n)

/-- At least `width` capital digits. -/
def hexCapital (width n : Nat) : String :=
  padZeros width ((Nat.toDigits 16 n).map Char.toUpper)

/-- Bytes as two digits each. -/
def hexBytes (bytes : List UInt8) : String :=
  String.join (bytes.map fun b => hexPadded 2 b.toNat)

/-- The value of a hexadecimal digit. -/
def hexDigit? (c : Char) : Option Nat :=
  if '0' ≤ c ∧ c ≤ '9' then some (c.toNat - '0'.toNat)
  else if 'a' ≤ c ∧ c ≤ 'f' then some (c.toNat - 'a'.toNat + 10)
  else if 'A' ≤ c ∧ c ≤ 'F' then some (c.toNat - 'A'.toNat + 10)
  else none

/-- The number that digits spell, if all characters are digits. -/
def numberOfHex? (digits : List Char) : Option Nat :=
  digits.foldlM (fun n c => do return n * 16 + (← hexDigit? c)) 0

/-- The bytes that pairs of digits spell. -/
def bytesOfHex? : List Char → Option (List UInt8)
  | [] => some []
  | [_] => none
  | high :: low :: rest => do
    return UInt8.ofNat ((← hexDigit? high) * 16 + (← hexDigit? low)) :: (← bytesOfHex? rest)

/-- The label of a position in bytecode. -/
def label (position : Nat) : String := "IL_" ++ hexPadded 4 position

end Reroute.Text
