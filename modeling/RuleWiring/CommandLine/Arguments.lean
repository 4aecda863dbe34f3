import RuleWiring.Number.Numeral

/-!
# Arguments

The words of a command line say which command is to run and with what. Words are taken in
from left to right, and the first that makes no sense ends the reading, as does a wish for
help or for the version. Options may stand before or behind the command they belong to,
except that those of a command stand behind its name; an option of the program may stand at
either place, and the later place decides. At one place an option is given once.

An option is written `--name value`, `--name=value`, or with a letter as `-l value`,
`-lvalue` or `-l=value`, and letters may be joined. After a lone `--` no word is an option.
-/

namespace RuleWiring

/-! ## What a command line means -/

inductive Command where
  | compile (id : String) (out : Option String)
  | compileAll (outDir : String)
  | stats (json : Bool)
  | analyze (file : String) (strict : Bool)
  | rule (number : UInt8) (out : Option String)
deriving DecidableEq, Repr

/-- A command with the options of the program. -/
structure Invocation where
  config : Option String
  library : Option String
  params : Option String
  bridge : Option String
  verbose : Bool
  command : Command
deriving DecidableEq, Repr

/-- Why there is no command to run. -/
inductive Interruption where
  | help
  | version
  | usage
deriving DecidableEq, Repr

namespace Arguments

/-! ## Commands and options -/

inductive CommandName where
  | compile
  | compileAll
  | stats
  | analyze
  | rule
deriving DecidableEq, Repr

namespace CommandName

def all : List CommandName := [.compile, .compileAll, .stats, .analyze, .rule]

def name : CommandName → String
  | .compile => "compile"
  | .compileAll => "compile-all"
  | .stats => "stats"
  | .analyze => "analyze"
  | .rule => "rule"

def ofName? (s : String) : Option CommandName := all.find? (·.name = s)

end CommandName

inductive Switch where
  | config
  | library
  | params
  | bridge
  | verbose
  | help
  | version
  | out
  | outDir
  | json
  | strict
deriving DecidableEq, Repr

namespace Switch

def name : Switch → String
  | .config => "config"
  | .library => "library"
  | .params => "params"
  | .bridge => "bridge"
  | .verbose => "verbose"
  | .help => "help"
  | .version => "version"
  | .out => "out"
  | .outDir => "out-dir"
  | .json => "json"
  | .strict => "strict"

def letter? : Switch → Option Char
  | .config => some 'c'
  | .verbose => some 'v'
  | .help => some 'h'
  | .version => some 'V'
  | .out => some 'o'
  | _ => none

/-- Whether a path comes with the switch. -/
def takesPath : Switch → Bool
  | .config | .library | .params | .bridge | .out | .outDir => true
  | _ => false

/-- The switches that are known at every place. -/
def everywhere : List Switch := [.config, .library, .params, .bridge, .verbose, .help]

/-- The switches that are known before a command, or behind it. -/
def known : Option CommandName → List Switch
  | none => everywhere ++ [.version]
  | some .compile | some .rule => everywhere ++ [.out]
  | some .compileAll => everywhere ++ [.outDir]
  | some .stats => everywhere ++ [.json]
  | some .analyze => everywhere ++ [.strict]

end Switch

/-! ## Reading -/

/-- What has been read. -/
structure Reading where
  command : Option CommandName := none
  /-- The paths given, the last first. -/
  paths : List (Switch × String) := []
  /-- The flags given. -/
  flags : List Switch := []
  /-- The switches given at this place. -/
  used : List Switch := []
  /-- The word that is no option. -/
  operand : Option String := none
  /-- Whether options are over. -/
  plain : Bool := false

namespace Reading

/-- Takes in a switch without a path. -/
def flag (r : Reading) (s : Switch) : Except Interruption Reading :=
  match s with
  | .help => .error .help
  | .version => .error .version
  | _ =>
      if s ∈ r.used then .error .usage
      else .ok { r with flags := s :: r.flags, used := s :: r.used }

/-- Takes in a switch with its path. -/
def path (r : Reading) (s : Switch) (value : String) : Except Interruption Reading :=
  if s ∈ r.used ∨ value = "" then .error .usage
  else .ok { r with paths := (s, value) :: r.paths, used := s :: r.used }

/-- The rule of a numeral, which may have a sign; with a minus sign only zero is a rule. -/
def rule? (s : String) : Option UInt8 :=
  match s.toList with
  | '-' :: ds => if !ds.isEmpty && ds.all (· = '0') then some 0 else none
  | _ => (Numeral.natBelow? 256 s).map UInt8.ofNat

/-- Takes in a word that is no option. -/
def takeOperand (r : Reading) (word : String) : Except Interruption Reading :=
  match r.command, r.operand with
  | some .compile, none => .ok { r with operand := some word }
  | some .analyze, none => if word = "" then .error .usage else .ok { r with operand := some word }
  | some .rule, none =>
      if (rule? word).isSome then .ok { r with operand := some word } else .error .usage
  | _, _ => .error .usage

/-- Takes in the letters of a joined word, and names the switch whose path is the next
word, if there is one. -/
def letters (r : Reading) : List Char → Except Interruption (Reading × Option Switch)
  | [] => .ok (r, none)
  | c :: rest =>
      match (Switch.known r.command).find? (·.letter? = some c) with
      | none => .error .usage
      | some s =>
          if s.takesPath then
            match rest with
            | [] => .ok (r, some s)
            | '=' :: value => (r.path s (String.ofList value)).map fun r => (r, none)
            | value => (r.path s (String.ofList value)).map fun r => (r, none)
          else
            match r.flag s with
            | .error e => .error e
            | .ok r => r.letters rest

/-- Takes in a word `--name` or `--name=value`, and names the switch whose path is the next
word, if there is one. -/
def long (r : Reading) (name : List Char) (value : Option String) :
    Except Interruption (Reading × Option Switch) :=
  match (Switch.known r.command).find? (·.name = String.ofList name), value with
  | none, _ => .error .usage
  | some s, none =>
      if s.takesPath then .ok (r, some s) else (r.flag s).map fun r => (r, none)
  | some s, some value =>
      if s.takesPath then (r.path s value).map fun r => (r, none) else .error .usage

/-- Whether a word asks for an option. -/
def isOption (word : List Char) : Bool := word.head? = some '-' && word.length ≠ 1

/-- Takes in an option, and names the switch whose path is the next word, if there is one. -/
def option (r : Reading) (word : List Char) : Except Interruption (Reading × Option Switch) :=
  match word with
  | '-' :: '-' :: name =>
      match name.dropWhile (· ≠ '=') with
      | [] => r.long name none
      | _ :: value => r.long (name.takeWhile (· ≠ '=')) (some (String.ofList value))
  | _ :: cs => r.letters cs
  | [] => .ok (r, none)

/-- What comes of asking for help about a command. -/
def helpAbout : List String → Interruption
  | [] => .help
  | [name] => if name = "help" ∨ (CommandName.ofName? name).isSome then .help else .usage
  | _ => .usage

/-- Takes in a word where a command is expected. -/
def takeCommand (r : Reading) (word : String) (rest : List String) :
    Except Interruption Reading :=
  if word = "help" then .error (helpAbout rest)
  else
    match CommandName.ofName? word with
    | none => .error .usage
    | some c => .ok { r with command := some c, used := [] }

/-- Takes in all words. -/
def words (r : Reading) : List String → Except Interruption Reading
  | [] => .ok r
  | word :: rest =>
      let cs := word.toList
      if r.plain then
        match r.takeOperand word with
        | .error e => .error e
        | .ok r => r.words rest
      else if cs = ['-', '-'] then { r with plain := true }.words rest
      else if isOption cs then
        match r.option cs with
        | .error e => .error e
        | .ok (r, none) => r.words rest
        | .ok (r, some s) =>
            match rest with
            | [] => .error .usage
            | value :: rest =>
                if isOption value.toList then .error .usage
                else
                  match r.path s value with
                  | .error e => .error e
                  | .ok r => r.words rest
      else
        match r.command with
        | none =>
            match r.takeCommand word rest with
            | .error e => .error e
            | .ok r => r.words rest
        | some _ =>
            match r.takeOperand word with
            | .error e => .error e
            | .ok r => r.words rest

/-- The path last given for a switch. -/
def path? (r : Reading) (s : Switch) : Option String :=
  (r.paths.find? (·.1 = s)).map Prod.snd

def has (r : Reading) (s : Switch) : Bool := r.flags.contains s

/-- The command of all words, unless something is missing. -/
def command? (r : Reading) : Option Command :=
  match r.command with
  | none => none
  | some .compile => r.operand.map fun id => .compile id (r.path? .out)
  | some .compileAll => (r.path? .outDir).map .compileAll
  | some .stats => some (.stats (r.has .json))
  | some .analyze => r.operand.map fun file => .analyze file (r.has .strict)
  | some .rule => (r.operand.bind rule?).map fun n => .rule n (r.path? .out)

def invocation? (r : Reading) : Option Invocation :=
  r.command?.map fun c =>
    { config := r.path? .config
      library := r.path? .library
      params := r.path? .params
      bridge := r.path? .bridge
      verbose := r.has .verbose
      command := c }

end Reading

end Arguments

/-- The invocation that the words of a command line ask for. -/
def Invocation.ofWords (words : List String) : Except Interruption Invocation :=
  match Arguments.Reading.words {} words with
  | .error e => .error e
  | .ok r =>
      match r.invocation? with
      | some i => .ok i
      | none => .error .usage

end RuleWiring
