import RuleWiring.Component.Basic
import RuleWiring.Bytes.Encoding
import RuleWiring.Number.Layout

/-!
# Literals

A constant that may be wired to a port in place of another component's output.
-/

namespace RuleWiring

inductive Literal where
  | int (n : UInt32)
  | real (x : Binary64)
  | bool (b : Bool)
deriving DecidableEq, Repr

namespace Literal

def valueType : Literal → ValueType
  | .int _ => .int
  | .real _ => .real
  | .bool _ => .bool

/-- Nine bytes: one for the type, then the value with zeros behind it. Reals count by
their bits. -/
def canonicalBytes : Literal → List UInt8
  | .int n => 0 :: Bytes.littleEndian 8 n.toNat
  | .real x => 1 :: Bytes.littleEndian 8 x.bits.toNat
  | .bool b => 2 :: Bytes.littleEndian 8 b.toNat

/-- The value as a plain text. -/
def text : Literal → String
  | .int n => String.ofList (Nat10.digits n.toNat)
  | .real x => x.positional
  | .bool b => if b then "true" else "false"

end Literal

end RuleWiring
