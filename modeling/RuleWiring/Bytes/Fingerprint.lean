import RuleWiring.Bytes.Sha256
import RuleWiring.Diagram.Basic

/-!
# Fingerprints

The fingerprint of a value is the hash of its canonical bytes. What is hashed begins with
the name of a domain, so that equal bytes of different kinds of values have different
fingerprints, and with the number of the bytes that follow.
-/

namespace RuleWiring

/-- The thirty-two bytes of a hash. -/
structure Fingerprint where
  bytes : List UInt8
deriving DecidableEq, Repr

namespace Fingerprint

/-- What is hashed for some data in a domain. -/
def message (domain data : List UInt8) : List UInt8 :=
  Bytes.ofText "SGW:" ++ domain ++ Bytes.ofText ":v1" ++ Bytes.littleEndian 8 data.length ++ data

def ofData (domain data : List UInt8) : Fingerprint := ⟨Sha256.hash (message domain data)⟩

def diagramDomain : List UInt8 := Bytes.ofText "WIRING_DIAGRAM_V0"

def parameterDomain : List UInt8 := Bytes.ofText "PARAMETER_RECORD_V0"

def zero : Fingerprint := ⟨List.replicate 32 0⟩

def toHex (f : Fingerprint) : String := Bytes.toHex f.bytes

/-- The first four bytes, for people to tell fingerprints apart. -/
def abbreviation (f : Fingerprint) : String :=
  let start := Bytes.toHex (f.bytes.take 4)
  s!"HashValue({start}…)"

end Fingerprint

def Diagram.fingerprint (d : Diagram) : Fingerprint :=
  .ofData Fingerprint.diagramDomain d.canonicalBytes

def ParameterRecord.fingerprint (r : ParameterRecord) : Fingerprint :=
  .ofData Fingerprint.parameterDomain r.canonicalBytes

end RuleWiring
