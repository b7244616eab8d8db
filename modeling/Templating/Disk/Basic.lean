import Templating.Naming

/-!
Disks as the compiler sees them: paths, what can go wrong, and the few
operations it needs. -/

namespace Templating.Disk

/-- Names of directories from the root of a disk on, then that of a file or one more directory. -/
structure Path where
  parts : List String
  deriving DecidableEq, Repr, Inhabited

namespace Path

def text (p : Path) : String := "/" ++ Text.join "/" p.parts

def parent (p : Path) : Path := ⟨p.parts.dropLast⟩

def child (p : Path) (name : String) : Path := ⟨p.parts ++ [name]⟩

/-- Whether a path is another one or lies below it. -/
def isIn (p q : Path) : Bool := q.parts.isPrefixOf p.parts

def beginnings {α : Type} : List α → List (List α)
  | [] => [[]]
  | x :: xs => [] :: (beginnings xs).map (x :: ·)

/-- All directories on the way to a path, the root first, and the path itself. -/
def way (p : Path) : List Path := (beginnings p.parts).map Path.mk

def ancestors (p : Path) : List Path := p.way.dropLast.reverse

/-- The path seen from a directory; a path outside it is given in full. -/
def relative (p root : Path) : String :=
  Naming.slashed (if p.isIn root then Text.join "/" (p.parts.drop root.parts.length) else p.text)

end Path

inductive Error where
  | notFound
  | alreadyExists
  | notDirectory
  | isDirectory
  | other (message : String)
  deriving DecidableEq, Repr

def Error.message : Error → String
  | notFound => "No such file or directory (os error 2)"
  | alreadyExists => "File exists (os error 17)"
  | notDirectory => "Not a directory (os error 20)"
  | isDirectory => "Is a directory (os error 21)"
  | other m => m

/-- A path as it is written, component by component; the empty ones do not count. -/
def steps (path : String) : List String := (Naming.components path).filter (· != "")

/-- The last component of a path, unless that only leads elsewhere. -/
def fileName? (path : String) : Option String :=
  match ((steps path).filter (· != ".")).getLast? with
  | some ".." => none
  | name => name

/-- A path in a directory, both as they are written. -/
def inside (directory name : String) : String :=
  if directory == "" || directory.endsWith "/" then directory ++ name else directory ++ "/" ++ name

end Disk

/-- A disk in a monad. Texts of paths may be relative and lead up and down. -/
structure Disk (m : Type → Type) where
  /-- Where a path leads. -/
  canonical : String → m (Except Disk.Error Disk.Path)
  read : String → m (Except Disk.Error String)
  isFile : String → m Bool
  /-- Makes a directory and all those it lies in. -/
  makeDirectory : String → m (Except Disk.Error Unit)
  write : String → String → m (Except Disk.Error Unit)

end Templating
