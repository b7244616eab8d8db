import Templating.Disk.Basic

/-!
Disks in memory: the directories and files that there are, and the directory that relative paths
start from.
-/

namespace Templating.Disk

inductive Entry where
  | directory
  | file (text : String)
  deriving DecidableEq, Repr

structure Tree where
  directories : List Path := []
  files : List (Path × String) := []
  current : Path := ⟨[]⟩
  deriving Inhabited

namespace Tree

def entry? (t : Tree) (p : Path) : Option Entry :=
  match t.files.find? (·.1 == p) with
  | some (_, text) => some (.file text)
  | none => if p.parts.isEmpty || t.directories.contains p then some .directory else none

def isDirectory (t : Tree) (p : Path) : Bool := t.entry? p == some .directory

def addDirectory (t : Tree) (p : Path) : Tree :=
  { t with directories := p.way.foldl (fun ds d => ds.insert d) t.directories }

def putFile (t : Tree) (p : Path) (text : String) : Tree :=
  { t with files := t.files.filter (·.1 != p) ++ [(p, text)] }

/-- A tree of files, of which the directories are those that files lie in. -/
def ofFiles (files : List (Path × String)) : Tree :=
  files.foldl (fun t (p, text) => (t.addDirectory p.parent).putFile p text) {}

def walk (t : Tree) : Path → List String → Except Error Path
  | p, [] => .ok p
  | p, name :: rest =>
    if !t.isDirectory p then .error .notDirectory
    else if name == "" || name == "." then t.walk p rest
    else if name == ".." then t.walk p.parent rest
    else if (t.entry? (p.child name)).isNone then .error .notFound
    else t.walk (p.child name) rest

def start (t : Tree) (path : String) : Path := if path.startsWith "/" then ⟨[]⟩ else t.current

def canonical (t : Tree) (path : String) : Except Error Path :=
  if path == "" then .error .notFound else t.walk (t.start path) (Naming.components path)

def read (t : Tree) (path : String) : Except Error String := do
  match t.entry? (← t.canonical path) with
  | some (.file text) => .ok text
  | _ => .error .isDirectory

def isFile (t : Tree) (path : String) : Bool := (t.read path).isOk

/-- Makes what directories are lacking on the way. -/
def makeSteps (t : Tree) : Path → List String → Except Error Tree
  | _, [] => .ok t
  | p, name :: rest =>
    if name == "." then t.makeSteps p rest
    else if name == ".." then t.makeSteps p.parent rest
    else
      match t.entry? (p.child name) with
      | some .directory => t.makeSteps (p.child name) rest
      | some (.file _) => .error (if rest.isEmpty then .alreadyExists else .notDirectory)
      | none => (t.addDirectory (p.child name)).makeSteps (p.child name) rest

def makeDirectory (t : Tree) (path : String) : Except Error Tree :=
  t.makeSteps (t.start path) (steps path)

def write (t : Tree) (path text : String) : Except Error Tree := do
  match (Naming.components path).getLast? with
  | none => .error .notFound
  | some name =>
    let p ← t.walk (t.start path) (Naming.components path).dropLast
    if !t.isDirectory p then .error .notDirectory
    else if name == "" || name == "." || name == ".." || t.isDirectory (p.child name) then
      .error .isDirectory
    else return t.putFile (p.child name) text

/-- Does what may change the tree, which stays as it is if that fails. -/
def change (f : Tree → Except Error Tree) : StateM Tree (Except Error Unit) := fun t =>
  match f t with
  | .ok t => (.ok (), t)
  | .error e => (.error e, t)

def disk : Disk (StateM Tree) where
  canonical path := return (← get).canonical path
  read path := return (← get).read path
  isFile path := return (← get).isFile path
  makeDirectory path := change (·.makeDirectory path)
  write path text := change (·.write path text)

end Tree

end Templating.Disk
