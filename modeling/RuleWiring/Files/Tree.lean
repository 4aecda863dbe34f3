import RuleWiring.Files.Route

/-!
# Trees of files

A `FileTree` holds files and directories by their paths from the root, and one of its
directories is the working directory. Routes are walked in it step by step, from the root or
from the working directory. The directory above the root is the root.

A state of type `FileTree` gives access to files without any outside world.
-/

namespace RuleWiring

/-- The names on the way to a file, from the root or from a directory. -/
abbrev FilePath := List String

namespace FilePath

/-- The path of a text without dots. -/
def ofText (s : String) : FilePath := (s.splitOn "/").filter (· ≠ "")

def text (p : FilePath) : String := "/".intercalate p

/-- The paths on the way to a path, the shortest first, without the path itself. -/
def above (p : FilePath) : List FilePath := (List.range p.length).map p.take

end FilePath

/-- What a route leads to. -/
inductive Finding where
  | directory (p : FilePath)
  | file (p : FilePath) (contents : String)
  /-- Nothing, but something may be put there. -/
  | vacancy (p : FilePath)
deriving DecidableEq, Repr

structure FileTree where
  files : List (FilePath × String) := []
  directories : List FilePath := []
  working : FilePath := []
deriving DecidableEq, Repr

namespace FileTree

def contents? (t : FileTree) (p : FilePath) : Option String :=
  (t.files.find? (·.1 = p)).map Prod.snd

def isFile (t : FileTree) (p : FilePath) : Bool := (t.contents? p).isSome

/-- The working directory is always there, and with it those above. -/
def isDirectory (t : FileTree) (p : FilePath) : Bool :=
  p.isPrefixOf t.working || t.directories.contains p

/-! ## Walking -/

/-- What is at a path. -/
def lookAt (t : FileTree) (p : FilePath) : Finding :=
  match t.contents? p with
  | some s => .file p s
  | none => if t.isDirectory p then .directory p else .vacancy p

/-- What a step from a directory leads to. -/
def step (t : FileTree) (p : FilePath) : Step → Except FileFault Finding
  | .here => .ok (.directory p)
  | .up => .ok (.directory p.dropLast)
  | .into name =>
      if Step.nameLimit < name.utf8ByteSize then .error .nameTooLong
      else .ok (t.lookAt (p ++ [name]))

/-- A step that has to end in a directory. -/
def enter (t : FileTree) (p : FilePath) (s : Step) : Except FileFault FilePath :=
  match t.step p s with
  | .ok (.directory p) => .ok p
  | .ok (.file ..) => .error .notDirectory
  | .ok (.vacancy _) => .error .missing
  | .error e => .error e

/-- The directory in which a walk starts. -/
def start (t : FileTree) (r : Route) : FilePath := if r.fromRoot then [] else t.working

/-- The directory in which the last step of a route is taken. -/
def approach (t : FileTree) (r : Route) : Except FileFault FilePath :=
  r.steps.dropLast.foldlM t.enter (t.start r)

/-- What the last step of a route leads to, from the directory in which it is taken. -/
def arrive (t : FileTree) (r : Route) (p : FilePath) : Except FileFault Finding :=
  match r.steps.getLast? with
  | none => .ok (.directory p)
  | some s => t.step p s

def find (t : FileTree) (r : Route) : Except FileFault Finding := (t.approach r).bind (t.arrive r)

/-! ## Reading and writing -/

def read (t : FileTree) (r : Route) : Except FileFault String :=
  match t.find r with
  | .ok (.file _ s) => if r.slash then .error .notDirectory else .ok s
  | .ok (.directory _) => .error .directory
  | .ok (.vacancy _) => .error .missing
  | .error e => .error e

/-- Puts a text at a path, in place of what was there. -/
def put (t : FileTree) (p : FilePath) (s : String) : FileTree :=
  if t.isFile p then { t with files := t.files.map fun f => if f.1 = p then (p, s) else f }
  else { t with files := t.files ++ [(p, s)] }

/-- Writes a file. A route with a slash at its end is taken for a directory without a look
at what is there. -/
def write (t : FileTree) (r : Route) (s : String) : Except FileFault FileTree :=
  match t.approach r with
  | .error e => .error e
  | .ok p =>
      if r.slash then .error .directory
      else
        match t.arrive r p with
        | .ok (.file p _) | .ok (.vacancy p) => .ok (t.put p s)
        | .ok (.directory _) => .error .directory
        | .error e => .error e

/-! ## Making directories -/

/-- Makes one directory. -/
def addDirectory (t : FileTree) (r : Route) : Except FileFault FileTree :=
  match t.find r with
  | .ok (.vacancy p) => .ok { t with directories := t.directories ++ [p] }
  | .ok (.directory _) | .ok (.file ..) => .error .exists
  | .error e => .error e

/-- Makes one directory, unless it is there. -/
def ensureDirectory (t : FileTree) (r : Route) : Except FileFault FileTree :=
  match t.find r with
  | .ok (.directory _) => .ok t
  | _ => t.addDirectory r

/-- Changes of a tree; a change that fails leaves what was done before it. -/
abbrev Change := ExceptT FileFault (StateM FileTree)

/-- Goes over to a later tree, if there is one. -/
def settle : Except FileFault FileTree → Change Unit
  | .ok t => set t
  | .error e => throw e

/-- Makes the first directory of a trail, with those behind it that it needs. -/
def makeTrail : List Route → Change Unit
  | [] => pure ()
  | r :: rest => do
      match (← get).ensureDirectory r with
      | .error .missing =>
          makeTrail rest
          settle ((← get).ensureDirectory r)
      | result => settle result

/-! ## Trees as states -/

/-- The working directory of a tree that is made of files. -/
def home : FilePath := ["home"]

/-- The tree of some files in the working directory and of the directories on the way to them. -/
def ofFiles (files : List (FilePath × String)) : FileTree :=
  { files := files.map fun f => (home ++ f.1, f.2)
    directories := (files.flatMap fun f => f.1.above.map (home ++ ·)).eraseDups
    working := home }

/-- The files in the working directory of a later tree, by their paths from there, that are new in
it or hold something else. -/
def changes (before later : FileTree) : List (FilePath × String) :=
  (later.files.filter fun f => before.contents? f.1 ≠ some f.2).filterMap fun f =>
    (later.working.isPrefixOf? f.1).map (·, f.2)

def readText (path : String) (t : FileTree) : Except FileFault String :=
  (Route.ofText path).bind t.read

def writeText (path s : String) : Change Unit := do
  let t ← get
  settle ((Route.ofText path).bind fun r => t.write r s)

/-- An empty path asks for no directory. -/
def makeDirectory (path : String) : Change Unit :=
  if path = "" then pure ()
  else
    match Route.ofText path with
    | .ok r => makeTrail r.trail
    | .error e => throw e

instance : FileAccess (StateM FileTree) where
  readText path := do return (← get).readText path
  writeText path s := (writeText path s).run
  makeDirectory path := (makeDirectory path).run

end FileTree

end RuleWiring
