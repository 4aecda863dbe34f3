import RuleWiring.Bytes.Encoding
import RuleWiring.Json.Basic
import RuleWiring.Json.Draft

/-!
# Concise binary representation

The binary form of structured values of the standard RFC 8949. `Cbor.encode` writes
definite lengths, the shortest head for every number and length, and a real in the
narrowest of the three widths that holds it exactly. `Cbor.decode?` reads any
well-formed item, of definite or indefinite length, that makes up the whole input.

A number in the place of a name stands for a field by its place in the record, or for one
of some values by its place among them. One of some values may also be written as a list of
its name and nothing, or as an object of one member whose head is a single byte. A tag says
nothing to this library, except that the value behind it is neither of these nor absent.
-/

namespace RuleWiring

namespace Cbor

/-! ## Writing -/

/-- The first byte of an item and the number it carries. -/
def head (kind n : Nat) : List UInt8 :=
  let major := 32 * kind
  if n < 24 then [UInt8.ofNat (major + n)]
  else if n < Nat.pow 2 8 then UInt8.ofNat (major + 24) :: Bytes.bigEndian 1 n
  else if n < Nat.pow 2 16 then UInt8.ofNat (major + 25) :: Bytes.bigEndian 2 n
  else if n < Nat.pow 2 32 then UInt8.ofNat (major + 26) :: Bytes.bigEndian 4 n
  else UInt8.ofNat (major + 27) :: Bytes.bigEndian 8 n

/-- A narrow binary format: the bits of its fraction, the largest exponent field of a
finite value, and the power of two that its smallest unit is of the double's. -/
structure Narrow where
  fractionBits : Nat
  largestField : Nat
  unit : Nat

def half : Narrow := ⟨10, 30, 1050⟩

def single : Narrow := ⟨23, 254, 925⟩

/-- The word, without its sign, that holds a magnitude exactly, if there is one. -/
def Narrow.word? (f : Narrow) (magnitude : Nat) : Option Nat :=
  let n := magnitude / Nat.pow 2 f.unit
  let doublings := n.log2 - f.fractionBits
  if magnitude % Nat.pow 2 f.unit = 0 ∧ n % Nat.pow 2 doublings = 0
      ∧ doublings + 1 ≤ f.largestField then
    some (doublings * Nat.pow 2 f.fractionBits + n / Nat.pow 2 doublings)
  else none

/-- The double of a word of a narrow format and its sign. -/
def Narrow.toBinary64 (f : Narrow) (negative : Bool) (word : Nat) : Binary64 :=
  let field := word / Nat.pow 2 f.fractionBits
  let fraction := word % Nat.pow 2 f.fractionBits
  if field ≤ f.largestField then
    let n :=
      if field = 0 then fraction
      else (fraction + Nat.pow 2 f.fractionBits) * Nat.pow 2 (field - 1)
    Binary64.ofMagnitude negative (n * Nat.pow 2 f.unit) 1
  else if fraction = 0 then Binary64.infinity negative
  else
    let quiet := fraction * Nat.pow 2 (52 - f.fractionBits) % Nat.pow 2 51 + Nat.pow 2 51
    Binary64.ofWord negative (Binary64.infiniteWord + quiet)

def signed (width : Nat) (negative : Bool) (word : Nat) : Nat :=
  if negative then Nat.pow 2 (8 * width - 1) + word else word

/-- A real in the narrowest exact width; every value that is not a number has one form. -/
def real (x : Binary64) : List UInt8 :=
  if x.isNaN then [0xf9, 0x7e, 0x00]
  else if !x.isFinite then [0xf9, if x.isNegative then 0xfc else 0x7c, 0x00]
  else
    match half.word? x.magnitude with
    | some w => 0xf9 :: Bytes.bigEndian 2 (signed 2 x.isNegative w)
    | none =>
        match single.word? x.magnitude with
        | some w => 0xfa :: Bytes.bigEndian 4 (signed 4 x.isNegative w)
        | none => 0xfb :: Bytes.bigEndian 8 x.bits.toNat

def text (s : String) : List UInt8 :=
  let bs := Bytes.ofText s
  head 3 bs.length ++ bs

mutual

def encode : Json → List UInt8
  | .null => [0xf6]
  | .bool b => [if b then 0xf5 else 0xf4]
  | .nat n => head 0 n
  | .real x => real x
  | .text s => text s
  | .list items => head 4 items.length ++ encodeItems items
  | .object members => head 5 members.length ++ encodeMembers members

def encodeItems : List Json → List UInt8
  | [] => []
  | v :: rest => encode v ++ encodeItems rest

def encodeMembers : List (String × Json) → List UInt8
  | [] => []
  | (k, v) :: rest => text k ++ encode v ++ encodeMembers rest

end

/-! ## Reading -/

/-- The first `n` bytes and the rest, if there are that many. -/
def take? (n : Nat) (bs : List UInt8) : Option (List UInt8 × List UInt8) :=
  if n ≤ bs.length then some (bs.take n, bs.drop n) else none

/-- What the low five bits of a first byte announce. -/
inductive Argument where
  | definite (n : Nat)
  | indefinite

/-- How many there are, if that is known. -/
def Argument.count? : Argument → Option Nat
  | .definite n => some n
  | .indefinite => none

/-- The number an item carries, and the bytes after it. -/
def argument? (low : Nat) (bs : List UInt8) : Option (Argument × List UInt8) :=
  if low < 24 then some (.definite low, bs)
  else if low < 28 then
    (take? (Nat.pow 2 (low - 24)) bs).map fun p => (.definite (Bytes.ofBigEndian p.1), p.2)
  else if low = 31 then some (.indefinite, bs)
  else none

/-- The pieces of a string of indefinite length, up to the break. -/
def pieces? (kind : Nat) : Nat → List UInt8 → Option (List UInt8 × List UInt8)
  | 0, _ => none
  | fuel + 1, bs =>
      match bs with
      | [] => none
      | b :: rest =>
          if b = 0xff then some ([], rest)
          else if b.toNat / 32 = kind then
            match argument? (b.toNat % 32) rest with
            | some (.definite n, rest) =>
                match take? n rest with
                | some (piece, rest) => (pieces? kind fuel rest).map fun p => (piece ++ p.1, p.2)
                | none => none
            | _ => none
          else none

/-- The bytes of a string, whose first byte is read. -/
def string? (kind low : Nat) (bs : List UInt8) : Option (List UInt8 × List UInt8) :=
  match argument? low bs with
  | some (.definite n, rest) => take? n rest
  | some (.indefinite, rest) => pieces? kind (rest.length + 1) rest
  | none => none

/-- A name as the key of a member. -/
def Key.ofDraft : Draft → Key
  | .text s => .name s
  | .place n => .place n
  | .bytes => .bytes
  | _ => .foreign

/-- The value behind a tag. -/
def tagged : Draft → Draft
  | .null => .void
  | .list items closing _ => .list items closing false
  | .object members closing _ => .object members closing false
  | d => d

/-- A number, a simple value or a string: an item that holds no other. -/
def scalar? (kind low : Nat) (bs : List UInt8) : Option (Draft × List UInt8) :=
  if kind = 0 ∨ kind = 1 then
    match argument? low bs with
    | some (.definite n, rest) =>
        if kind = 0 then some (.place n, rest)
        else if n < Nat.pow 2 63 then some (.number (.minus (n + 1)), rest)
        else some (.foreign, rest)
    | _ => none
  else if kind = 2 then
    (string? kind low bs).map fun p =>
      ((Bytes.toText? p.1).elim .bytes .text, p.2)
  else if kind = 3 then
    match string? kind low bs with
    | some (s, rest) => (Bytes.toText? s).map fun s => (.text s, rest)
    | none => none
  else if low = 20 then some (.bool false, bs)
  else if low = 21 then some (.bool true, bs)
  else if low = 22 then some (.null, bs)
  else if low = 23 then some (.void, bs)
  else if low = 25 then
    (take? 2 bs).map fun p =>
      let w := Bytes.ofBigEndian p.1
      (.number (.real (half.toBinary64 (Nat.pow 2 15 ≤ w) (w % Nat.pow 2 15))), p.2)
  else if low = 26 then
    (take? 4 bs).map fun p =>
      let w := Bytes.ofBigEndian p.1
      (.number (.real (single.toBinary64 (Nat.pow 2 31 ≤ w) (w % Nat.pow 2 31))), p.2)
  else if low = 27 then
    (take? 8 bs).map fun p =>
      (.number (.real ⟨UInt64.ofNat (Bytes.ofBigEndian p.1)⟩), p.2)
  else none

mutual

/-- An item that lies under fewer than `levels` others. -/
def item? : Nat → Nat → List UInt8 → Option (Draft × List UInt8)
  | 0, _, _ => none
  | fuel + 1, levels, bs =>
      match bs with
      | [] => none
      | b :: rest =>
          let kind := b.toNat / 32
          let low := b.toNat % 32
          if kind = 4 ∨ kind = 5 ∨ kind = 6 then
            if levels = 0 then none
            else
              match argument? low rest with
              | none => none
              | some (argument, rest) =>
                  if kind = 4 then
                    (items? fuel (levels - 1) argument.count? rest).map fun p =>
                      (.list p.1 none true, p.2)
                  else if kind = 5 then
                    (members? fuel (levels - 1) argument.count? rest).map fun p =>
                      (.object p.1 none (low = 1), p.2)
                  else if argument.count?.isNone then none
                  else (item? fuel (levels - 1) rest).map fun p => (tagged p.1, p.2)
          else scalar? kind low rest

/-- The items of a list: as many as announced, or up to the break. -/
def items? : Nat → Nat → Option Nat → List UInt8 → Option (List Draft × List UInt8)
  | 0, _, _, _ => none
  | fuel + 1, levels, count, bs =>
      if count = some 0 then some ([], bs)
      else if count.isNone && bs.head? = some 0xff then some ([], bs.tail)
      else
        match item? fuel levels bs with
        | none => none
        | some (v, rest) =>
            (items? fuel levels (count.map (· - 1)) rest).map fun p => (v :: p.1, p.2)

/-- The members of an object: as many as announced, or up to the break. -/
def members? : Nat → Nat → Option Nat → List UInt8 → Option (List (Key × Draft) × List UInt8)
  | 0, _, _, _ => none
  | fuel + 1, levels, count, bs =>
      if count = some 0 then some ([], bs)
      else if count.isNone && bs.head? = some 0xff then some ([], bs.tail)
      else
        match item? fuel levels bs with
        | none => none
        | some (k, rest) =>
            match item? fuel levels rest with
            | none => none
            | some (v, rest) =>
                (members? fuel levels (count.map (· - 1)) rest).map fun p =>
                  ((Key.ofDraft k, v) :: p.1, p.2)

end

/-- The number of items that may lie around another. -/
def depth : Nat := 127

/-- The item that makes up the whole input. -/
def decode? (bs : List UInt8) : Option Draft :=
  match item? (2 * bs.length + 2) depth bs with
  | some (d, []) => some d
  | _ => none

end Cbor

end RuleWiring
