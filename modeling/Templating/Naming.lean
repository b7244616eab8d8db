import Templating.Code.Grammar
import Templating.Text.Name

/-!
Names made from paths: what a class and its namespace are called.
-/

namespace Templating.Naming

/-- A name made of a text: other characters become underscores, one stands in front where a name may
not begin, and one behind a reserved word. -/
def sanitize (s : String) : String :=
  let cs := s.toList.map fun c => if Text.continuesName c then c else '_'
  let cs := if cs.head?.any Text.startsName then cs else '_' :: cs
  let name := String.ofList cs
  if Code.isName name then name else .ofList (cs ++ ['_'])

def splitColons : List Char → List (List Char)
  | [] => [[]]
  | ':' :: ':' :: cs => [] :: splitColons cs
  | c :: cs =>
    match splitColons cs with
    | [] => [[c]]
    | r :: rs => (c :: r) :: rs

def segments (s : String) : List String :=
  (splitColons s.toList).flatMap fun part => (Text.splitAt (· == '.') part).map String.ofList

/-- Sanitised segments joined by dots; empty ones are left out. -/
def normalize (s : String) : String :=
  Text.join "." (((segments s).filter (· != "")).map sanitize)

def slashed (path : String) : String :=
  path.map fun c => if c == '\\' then '/' else c

def components (path : String) : List String :=
  (Text.splitAt (· == '/') path.toList).map String.ofList

/-- The namespace of a file: the root, then a segment for every directory of its path. -/
def ofPath (root path : String) : String :=
  let directories := (components (slashed path)).dropLast.filter fun d => d != "" && d != "."
  Text.join "." ((if root == "" then [] else [root]) ++ directories.map sanitize)

/-- The last component of a path up to its first dot, unless it begins with that dot. -/
def stem (path : String) : String :=
  let name := ((components path).getLast?.getD path).toList
  let before := name.takeWhile (· != '.')
  .ofList (if before.isEmpty then name else before)

end Templating.Naming
