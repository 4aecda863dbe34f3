import RuleWiring.Bytes.Encoding
import RuleWiring.Number.Layout

/-!
# Structured values and their texts

A `Json` value is what a record of this library is written as. It has two texts: the
compact one, and the indented one with every element on a line of its own. An object
keeps its members in the order given. A real that is no finite number is written `null`.
-/

namespace RuleWiring

/-- A structured value; whole numbers are never negative here. -/
inductive Json where
  | null
  | bool (b : Bool)
  | nat (n : Nat)
  | real (x : Binary64)
  | text (s : String)
  | list (items : List Json)
  | object (members : List (String × Json))
deriving Inhabited

namespace Json

/-- A value, or `null` in its absence. -/
def ofOption {α : Type} (f : α → Json) : Option α → Json
  | none => .null
  | some a => f a

/-- A member that is left out when there is no value for it. -/
def optional {α : Type} (name : String) (f : α → Json) : Option α → List (String × Json)
  | none => []
  | some a => [(name, f a)]

def strings (ss : List String) : Json := .list (ss.map .text)

/-! ## Strings -/

/-- A character inside a string: quotes, backslashes and control characters are escaped. -/
def escapeChar (c : Char) : List Char :=
  if c = '"' then ['\\', '"']
  else if c = '\\' then ['\\', '\\']
  else if c = '\n' then ['\\', 'n']
  else if c = '\r' then ['\\', 'r']
  else if c = '\t' then ['\\', 't']
  else if c = '\x08' then ['\\', 'b']
  else if c = '\x0c' then ['\\', 'f']
  else if c.toNat < 32 then
    ['\\', 'u', '0', '0', Bytes.hexDigit (c.toNat / 16), Bytes.hexDigit (c.toNat % 16)]
  else [c]

def quoted (s : String) : List Char := '"' :: s.toList.flatMap escapeChar ++ ['"']

/-- A finite real with a point or an exponent, anything else as `null`. -/
def realText (x : Binary64) : List Char :=
  if x.isFinite then x.scientific.toList else ['n', 'u', 'l', 'l']

/-! ## Texts -/

/-- Puts a separator between texts. -/
def separated (separator : List Char) (parts : List (List Char)) : List Char :=
  (parts.intersperse separator).flatten

mutual

/-- The text without any blank. -/
def compact : Json → List Char
  | .null => ['n', 'u', 'l', 'l']
  | .bool b => if b then ['t', 'r', 'u', 'e'] else ['f', 'a', 'l', 's', 'e']
  | .nat n => Nat10.digits n
  | .real x => realText x
  | .text s => quoted s
  | .list items => '[' :: separated [','] (compactItems items) ++ [']']
  | .object members => '{' :: separated [','] (compactMembers members) ++ ['}']

def compactItems : List Json → List (List Char)
  | [] => []
  | v :: rest => compact v :: compactItems rest

def compactMembers : List (String × Json) → List (List Char)
  | [] => []
  | (k, v) :: rest => (quoted k ++ ':' :: compact v) :: compactMembers rest

end

/-- A new line with two blanks for each level. -/
def lineBreak (level : Nat) : List Char := '\n' :: List.replicate (2 * level) ' '

mutual

/-- The text with one element to a line, at a given depth. -/
def indented (level : Nat) : Json → List Char
  | .null => ['n', 'u', 'l', 'l']
  | .bool b => if b then ['t', 'r', 'u', 'e'] else ['f', 'a', 'l', 's', 'e']
  | .nat n => Nat10.digits n
  | .real x => realText x
  | .text s => quoted s
  | .list [] => ['[', ']']
  | .list (v :: rest) =>
      '[' :: separated [','] (indentedItems (level + 1) (v :: rest)) ++ lineBreak level ++ [']']
  | .object [] => ['{', '}']
  | .object (m :: rest) =>
      '{' :: separated [','] (indentedMembers (level + 1) (m :: rest)) ++ lineBreak level ++ ['}']

def indentedItems (level : Nat) : List Json → List (List Char)
  | [] => []
  | v :: rest => (lineBreak level ++ indented level v) :: indentedItems level rest

def indentedMembers (level : Nat) : List (String × Json) → List (List Char)
  | [] => []
  | (k, v) :: rest =>
      (lineBreak level ++ quoted k ++ ':' :: ' ' :: indented level v) :: indentedMembers level rest

end

def toCompact (v : Json) : String := String.ofList v.compact

def toPretty (v : Json) : String := String.ofList (v.indented 0)

end Json

end RuleWiring
