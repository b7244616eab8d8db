import Templating.Disk.Basic
import Templating.Options

/-!
The imports of a template: a file of one name in each directory from the root down to the template's
own.
-/

namespace Templating.CommandLine

/-- A step of the program that failed, and why. -/
structure Failure where
  step : String
  cause : Disk.Error
  deriving DecidableEq, Repr

def Failure.message (f : Failure) : String :=
  s!"Error: {f.step}\n\nCaused by:\n    {f.cause.message}\n"

def orFail {m : Type → Type} [Monad m] {α : Type} (step : String) (r : m (Except Disk.Error α)) :
    ExceptT Failure m α :=
  ExceptT.mk (do return (← r).mapError fun e => ⟨step, e⟩)

def importName : String := "_imports.stencil"

/-- The first elements of a list, up to one that holds. -/
def upTo {α : Type} (p : α → Bool) : List α → List α
  | [] => []
  | x :: xs => if p x then [x] else x :: upTo p xs

/-- The directories whose imports a template shares, outermost first: those up to the root, or only
its own if it lies outside the root. -/
def importDirectories (root template : Disk.Path) : List Disk.Path :=
  (upTo (fun d => d == root || !d.isIn root) template.ancestors).reverse

def findImports {m : Type → Type} [Monad m] (disk : Disk m) (root : Disk.Path) :
    List Disk.Path → ExceptT Failure m (List Import)
  | [] => pure []
  | d :: ds => do
    let path := d.child importName
    if ← (disk.isFile path.text : m Bool) then
      let text ← orFail s!"Failed to read imports: {path.text}" (disk.read path.text)
      return ⟨path.relative root, text⟩ :: (← findImports disk root ds)
    else findImports disk root ds

end Templating.CommandLine
