import RuleWiring.Bytes.Encoding
import RuleWiring.Json.Draft
import RuleWiring.Number.Numeral

/-!
# From a text to a draft

`Draft.ofText` reads one value from the front of a text. The steps below all take the
characters still to be read and give back what is left of them; a step that cannot go on
gives a `Stop` instead.

A numeral keeps the leading digits that fit in sixty-four bits, and the power of ten is
applied to them with one rounding. A numeral with neither point nor exponent is a whole
number while it fits in sixty-four bits with its sign; minus zero is a real.
-/

namespace RuleWiring

namespace Draft

/-- What a step found, and what is left to read. -/
inductive Step (α : Type) where
  | found (value : α) (rest : List Char)
  | stopped (stop : Stop)

def isBlank (c : Char) : Bool := c = ' ' || c = '\n' || c = '\t' || c = '\r'

def dropBlanks (cs : List Char) : List Char := cs.dropWhile isBlank

/-! ## Strings -/

/-- The number of bytes that some characters take. -/
def byteCount (cs : List Char) : Nat := cs.foldl (fun n c => n + c.utf8Size) 0

/-- Four hexadecimal digits. Fewer than four bytes are an early end, whatever they hold. -/
def fourHex (cs : List Char) : Step Nat :=
  match cs with
  | a :: b :: c :: d :: rest =>
      match Bytes.hexValue? a, Bytes.hexValue? b, Bytes.hexValue? c, Bytes.hexValue? d with
      | some a, some b, some c, some d => .found (((a * 16 + b) * 16 + c) * 16 + d) rest
      | _, _, _, _ => .stopped .malformed
  | short => .stopped (if byteCount short < 4 then .truncated else .malformed)

/-- The character an escape letter stands for. -/
def escaped? (c : Char) : Option Char :=
  if c = '"' ∨ c = '\\' ∨ c = '/' then some c
  else if c = 'b' then some '\x08'
  else if c = 'f' then some '\x0c'
  else if c = 'n' then some '\n'
  else if c = 'r' then some '\r'
  else if c = 't' then some '\t'
  else none

def isHighSurrogate (n : Nat) : Bool := 0xD800 ≤ n && n ≤ 0xDBFF

def isLowSurrogate (n : Nat) : Bool := 0xDC00 ≤ n && n ≤ 0xDFFF

/-- A code unit after its escape: a character, or the first half of a pair whose second
half has to follow in an escape of its own. `none` stands for half a pair, which is no
character; reading then goes on behind that half. -/
def codeUnit (n : Nat) (rest : List Char) : Step (Option Char) :=
  if isLowSurrogate n then .found none rest
  else if isHighSurrogate n then
    match rest with
    | [] => .stopped .truncated
    | ['\\'] => .stopped .truncated
    | '\\' :: 'u' :: after =>
        match fourHex after with
        | .stopped stop => .stopped stop
        | .found low behind =>
            if isLowSurrogate low then
              .found (some (Char.ofNat ((n - 0xD800) * 0x400 + (low - 0xDC00) + 0x10000))) behind
            else .found none rest
    | _ => .found none rest
  else .found (some (Char.ofNat n)) rest

/-- The characters of a string up to its closing quote, or `none` for a string that holds
half a pair. Once half a pair was met, a later problem matters only to who skips. -/
def stringBody : Nat → Option (List Char) → List Char → Step (Option String)
  | 0, _, _ => .stopped .malformed
  | fuel + 1, taken, cs =>
      let stopped (stop : Stop) : Step (Option String) :=
        .stopped (if taken.isNone then { Stop.malformed with skipping := stop.skipping } else stop)
      match cs with
      | [] => stopped .truncated
      | c :: rest =>
          if c = '"' then .found (taken.map fun cs => String.ofList cs.reverse) rest
          else if c = '\\' then
            match rest with
            | [] => stopped .truncated
            | 'u' :: rest =>
                match fourHex rest with
                | .stopped stop => stopped stop
                | .found n rest =>
                    match codeUnit n rest with
                    | .stopped stop => stopped stop
                    | .found c rest =>
                        stringBody fuel (taken.bind fun cs => c.map (· :: cs)) rest
            | e :: rest =>
                match escaped? e with
                | none => stopped .malformed
                | some c => stringBody fuel (taken.map (c :: ·)) rest
          else if c.toNat < 32 then stopped .malformed
          else stringBody fuel (taken.map (c :: ·)) rest

/-- A string after its opening quote. -/
def stringAfterQuote (cs : List Char) : Step (Option String) :=
  stringBody (cs.length + 1) (some []) cs

/-! ## Numerals -/

/-- The leading digits that keep a significand below `2^64`, and those after them. -/
def significand (start : Nat) : List Char → Nat × List Char
  | [] => (start, [])
  | c :: rest =>
      let n := 10 * start + Numeral.digitValue c
      if n < Nat.pow 2 64 then significand n rest else (start, c :: rest)

/-- `x · 10^exponent`, rounded once per power of ten at hand; `none` beyond the doubles. -/
def scaled? (x : Binary64) (exponent : Int) : Option Binary64 :=
  let power (n : Nat) : Binary64 := Binary64.ofNat (Nat.pow 10 n)
  if 0 ≤ exponent then
    if exponent ≤ 308 then
      let y := x.mul (power exponent.toNat)
      if y.isFinite then some y else none
    else if x.word = 0 then some x
    else none
  else
    let n := (-exponent).toNat
    if n ≤ 308 then some (x.div (power n))
    else if n ≤ 616 then some ((x.div (power 308)).div (power (n - 308)))
    else some Binary64.zero

/-- The amount of a numeral, from its sign, its digits before and after the point, and its
exponent. -/
def amount (negative : Bool) (whole : List Char) (places : Option (List Char))
    (exponent : Option (Bool × List Char)) : Amount :=
  let (n, more) := significand 0 whole
  if places.isNone && exponent.isNone && more.isEmpty then
    if negative then
      if n = 0 ∨ Nat.pow 2 63 < n then .real (Binary64.ofNat n).neg else .minus n
    else .nat n
  else
    let (n, left) := significand n (places.getD [])
    let shift : Int := more.length - ((places.getD []).length - left.length : Nat)
    let result : Option Binary64 :=
      match exponent with
      | none => scaled? (Binary64.ofNat n) shift
      | some (small, ds) =>
          let e : Int := Numeral.ofDigits 0 ds
          if e < Nat.pow 2 31 then
            scaled? (Binary64.ofNat n) (if small then shift - e else shift + e)
          else if n ≠ 0 ∧ !small then none
          else some Binary64.zero
    match result with
    | none => .tooLarge
    | some x => .real (if negative then x.neg else x)

/-- Where digits have to stand: an early end matters only to the reader. -/
def digitMissing (rest : List Char) : Stop :=
  if rest.isEmpty then .truncatedNumeral else .malformed

/-- The exponent of a numeral, if there is one: whether it is negative, and its digits. -/
def exponentPart (cs : List Char) : Step (Option (Bool × List Char)) :=
  match cs with
  | [] => .found none []
  | c :: rest =>
      if c = 'e' ∨ c = 'E' then
        let (negative, rest) := match rest with
          | '-' :: r => (true, r)
          | '+' :: r => (false, r)
          | r => (false, r)
        let (ds, behind) := Numeral.spanDigits rest
        if ds.isEmpty then .stopped (digitMissing rest) else .found (some (negative, ds)) behind
      else .found none cs

/-- A numeral after its sign. The whole part starts with a zero only if it is zero. -/
def numeral (negative : Bool) (cs : List Char) : Step Amount :=
  let (whole, rest) := Numeral.spanDigits cs
  if whole.isEmpty then .stopped (digitMissing cs)
  else if whole.head? = some '0' ∧ 1 < whole.length then .stopped .malformed
  else
    let places : Step (Option (List Char)) := match rest with
      | '.' :: r =>
          let (ds, behind) := Numeral.spanDigits r
          if ds.isEmpty then .stopped (digitMissing r) else .found (some ds) behind
      | r => .found none r
    match places with
    | .stopped stop => .stopped stop
    | .found places rest =>
        match exponentPart rest with
        | .stopped stop => .stopped stop
        | .found exponent rest => .found (amount negative whole places exponent) rest

/-! ## Values -/

/-- The rest of a word after its first letter; `early` is where the text ends inside it. -/
def word (letters : List Char) (value : Draft) (early : Stop) (cs : List Char) :
    Draft × List Char :=
  match letters, cs with
  | [], cs => (value, cs)
  | _ :: _, [] => (.broken early, [])
  | l :: letters, c :: cs =>
      if l = c then word letters value early cs else (.broken .malformed, [])

mutual

/-- A value, with the blanks before it. What is left after a broken value has no meaning. -/
def value : Nat → List Char → Draft × List Char
  | 0, _ => (.broken .malformed, [])
  | fuel + 1, cs =>
      match dropBlanks cs with
      | [] => (.broken .truncated, [])
      | c :: rest =>
          if c = 'n' then word ['u', 'l', 'l'] .null .truncatedNull rest
          else if c = 't' then word ['r', 'u', 'e'] (.bool true) .truncatedWord rest
          else if c = 'f' then word ['a', 'l', 's', 'e'] (.bool false) .truncatedWord rest
          else if c = '"' then
            match stringAfterQuote rest with
            | .stopped stop => (.broken stop, [])
            | .found (some s) rest => (.text s, rest)
            | .found none rest => (.unreadable, rest)
          else if c = '-' then ofNumeral (numeral true rest)
          else if c.isDigit then ofNumeral (numeral false (c :: rest))
          else if c = '[' then
            let (items, closing, rest) := firstItem fuel rest
            (.list items closing false, rest)
          else if c = '{' then
            let (members, closing, rest) := firstMember fuel rest
            (.object members closing true, rest)
          else (.broken .malformed, [])
where
  ofNumeral : Step Amount → Draft × List Char
    | .stopped stop => (.broken stop, [])
    | .found a rest => (.number a, rest)

/-- The items of a list after its opening bracket. -/
def firstItem : Nat → List Char → List Draft × Option Stop × List Char
  | 0, _ => ([], some .malformed, [])
  | fuel + 1, cs =>
      match dropBlanks cs with
      | [] => ([], some .truncated, [])
      | ']' :: rest => ([], none, rest)
      | cs => item fuel cs

/-- An item and all after it. A comma has to be followed by an item. -/
def item : Nat → List Char → List Draft × Option Stop × List Char
  | 0, _ => ([], some .malformed, [])
  | fuel + 1, cs =>
      match value fuel cs with
      | (v@(.broken _), _) => ([v], none, [])
      | (v, rest) =>
          match dropBlanks rest with
          | ',' :: rest =>
              let (items, closing, rest) := item fuel rest
              (v :: items, closing, rest)
          | ']' :: rest => ([v], none, rest)
          | rest => ([v], some (Stop.before rest), [])

/-- The members of an object after its opening brace. -/
def firstMember : Nat → List Char → List (Key × Draft) × Option Stop × List Char
  | 0, _ => ([], some .malformed, [])
  | fuel + 1, cs =>
      match dropBlanks cs with
      | [] => ([], some .truncated, [])
      | '}' :: rest => ([], none, rest)
      | cs => member fuel cs

/-- A member and all after it. A comma has to be followed by a member. -/
def member : Nat → List Char → List (Key × Draft) × Option Stop × List Char
  | 0, _ => ([], some .malformed, [])
  | fuel + 1, cs =>
      match dropBlanks cs with
      | '"' :: rest =>
          match stringAfterQuote rest with
          | .stopped stop => ([(.broken stop, .null)], none, [])
          | .found name rest =>
              let key := match name with
                | some s => Key.name s
                | none => Key.unreadable
              match dropBlanks rest with
              | ':' :: rest =>
                  match value fuel rest with
                  | (v@(.broken _), _) => ([(key, v)], none, [])
                  | (v, rest) =>
                      match dropBlanks rest with
                      | ',' :: rest =>
                          let (members, closing, rest) := member fuel rest
                          ((key, v) :: members, closing, rest)
                      | '}' :: rest => ([(key, v)], none, rest)
                      | rest => ([(key, v)], some (Stop.before rest), [])
              | rest => ([(key, .broken (Stop.before rest))], none, [])
      | rest => ([(.broken (Stop.before rest), .null)], none, [])

end

/-- The value at the front of a text, and whether only blanks follow it. -/
def ofText (s : String) : Draft × Bool :=
  let cs := s.toList
  let (v, rest) := value (3 * cs.length + 3) cs
  (v, (dropBlanks rest).isEmpty)

end Draft

end RuleWiring
