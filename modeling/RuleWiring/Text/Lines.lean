import RuleWiring.Text.Blank

/-!
# Lines and columns

A text is cut into lines at line feeds. A line feed ends a line, so that none follows the
last of them, and a carriage return right before it belongs to it.
-/

namespace RuleWiring

namespace Text

/-- The pieces of a list between the elements equal to a separator; always at least one. -/
def splitOn (separator : Char) : List Char → List (List Char)
  | [] => [[]]
  | c :: cs =>
      if c = separator then [] :: splitOn separator cs
      else
        match splitOn separator cs with
        | [] => [[c]]
        | piece :: rest => (c :: piece) :: rest

/-- Without a carriage return at the end. -/
def dropReturn (cs : List Char) : List Char :=
  if cs.getLast? = some '\r' then cs.dropLast else cs

/-- Turns the pieces between line feeds into lines: the last piece has no line feed behind
it, and is a line only if it is not empty. -/
def closeLines : List (List Char) → List (List Char)
  | [] => []
  | [last] => if last.isEmpty then [] else [last]
  | piece :: rest => dropReturn piece :: closeLines rest

def lines (s : String) : List String := (closeLines (splitOn '\n' s.toList)).map String.ofList

/-- The trimmed columns of a row with tabs between them. -/
def columns (line : String) : List String :=
  (splitOn '\t' line.toList).map fun cs => String.ofList (trimChars cs)

/-- A text cut at the first occurrence of a character, if there is one. -/
def splitAt? (separator : Char) (s : String) : Option (String × String) :=
  let cs := s.toList
  match cs.dropWhile (· ≠ separator) with
  | [] => none
  | _ :: rest => some (String.ofList (cs.takeWhile (· ≠ separator)), String.ofList rest)

end Text

end RuleWiring
