/-!
# Byte encodings

Numbers of a fixed width in either byte order, texts with their length in front, and the
hexadecimal text of a list of bytes.
-/

namespace RuleWiring

namespace Bytes

/-- The lowest `width` bytes of a number, the lowest first. -/
def littleEndian : Nat → Nat → List UInt8
  | 0, _ => []
  | width + 1, n => UInt8.ofNat n :: littleEndian width (n / 256)

/-- The lowest `width` bytes of a number, the highest first. -/
def bigEndian (width n : Nat) : List UInt8 := (littleEndian width n).reverse

/-- The number some bytes spell, the highest first. -/
def ofBigEndian (bs : List UInt8) : Nat := bs.foldl (fun n b => 256 * n + b.toNat) 0

def ofText (s : String) : List UInt8 := s.toUTF8.toList

/-- The text some bytes encode, if they are well formed. -/
def toText? (bs : List UInt8) : Option String := String.fromUTF8? (ByteArray.mk bs.toArray)

/-- A text behind its length in bytes, which takes four bytes. -/
def prefixedText (s : String) : List UInt8 :=
  let bs := ofText s
  littleEndian 4 bs.length ++ bs

def ofBool (b : Bool) : List UInt8 := [if b then 1 else 0]

/-! ## Hexadecimal -/

/-- The lowercase digit of a number below sixteen. -/
def hexDigit (n : Nat) : Char := if n < 10 then Char.ofNat (48 + n) else Char.ofNat (87 + n)

def toHex (bs : List UInt8) : String :=
  String.ofList (bs.flatMap fun b => [hexDigit (b.toNat / 16), hexDigit (b.toNat % 16)])

/-- The number of a hexadecimal digit, in either case. -/
def hexValue? (c : Char) : Option Nat :=
  if '0' ≤ c ∧ c ≤ '9' then some (c.toNat - 48)
  else if 'a' ≤ c ∧ c ≤ 'f' then some (c.toNat - 87)
  else if 'A' ≤ c ∧ c ≤ 'F' then some (c.toNat - 55)
  else none

/-- The bytes of pairs of digits. -/
def ofHexDigits? : List Char → Option (List UInt8)
  | [] => some []
  | [_] => none
  | a :: b :: rest =>
      match hexValue? a, hexValue? b, ofHexDigits? rest with
      | some high, some low, some bs => some (UInt8.ofNat (16 * high + low) :: bs)
      | _, _, _ => none

/-- The bytes of a hexadecimal text. -/
def ofHex? (s : String) : Option (List UInt8) := ofHexDigits? s.toList

end Bytes

end RuleWiring
