/-!
# Blanks

The characters that count as white space are those with the Unicode property of that
name. `trim` removes them from both ends of a text, and `splitWord` cuts a text at the
first of them.
-/

namespace RuleWiring

namespace Text

/-- The ranges of the Unicode property `White_Space`. -/
def blankRanges : List (Nat × Nat) :=
  [(0x09, 0x0D), (0x20, 0x20), (0x85, 0x85), (0xA0, 0xA0), (0x1680, 0x1680), (0x2000, 0x200A),
   (0x2028, 0x2029), (0x202F, 0x202F), (0x205F, 0x205F), (0x3000, 0x3000)]

def isBlank (c : Char) : Bool := blankRanges.any fun r => r.1 ≤ c.toNat && c.toNat ≤ r.2

/-- Without the characters of a class at either end. -/
def stripChars (p : Char → Bool) (cs : List Char) : List Char :=
  ((cs.dropWhile p).reverse.dropWhile p).reverse

def trimChars (cs : List Char) : List Char := stripChars isBlank cs

def trim (s : String) : String := String.ofList (trimChars s.toList)

/-- The first word and the trimmed rest behind the blank that ends it. -/
def splitWord (s : String) : String × String :=
  let cs := s.toList
  (String.ofList (cs.takeWhile fun c => !isBlank c),
    String.ofList (trimChars ((cs.dropWhile fun c => !isBlank c).drop 1)))

/-- Without the colons that some write in front of a keyword. -/
def dropColons (s : String) : String := String.ofList (s.toList.dropWhile (· = ':'))

/-- A keyword in a text: trimmed, and without colons in front. -/
def keyword (s : String) : String := dropColons (trim s)

end Text

end RuleWiring
