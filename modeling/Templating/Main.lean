import Templating.CommandLine.Program

/-!
The command line: the program on the machine's own disk.
-/

namespace Templating

def Disk.Error.ofSystem : IO.Error → Disk.Error
  | .noFileOrDirectory .. => .notFound
  | .alreadyExists .. => .alreadyExists
  | .inappropriateType _ 20 _ => .notDirectory
  | .inappropriateType _ 21 _ => .isDirectory
  | e => .other (toString e)

def Disk.attempt {α : Type} (act : IO α) : IO (Except Disk.Error α) := do
  try return .ok (← act)
  catch e => return .error (.ofSystem e)

def Disk.system : Disk IO where
  canonical path := Disk.attempt do
    let real ← IO.FS.realPath path
    if ← real.pathExists then return ⟨Disk.steps real.toString⟩
    else throw (.noFileOrDirectory path 2 "")
  read path := Disk.attempt (IO.FS.readFile path)
  isFile path := do
    match ← Disk.attempt (IO.FS.readFile path) with
    | .ok _ => return true
    | .error _ => return false
  makeDirectory path := Disk.attempt (if path == "" then pure () else IO.FS.createDirAll path)
  write path text := Disk.attempt (IO.FS.writeFile path text)

end Templating

def main (args : List String) : IO UInt32 := do
  let outcome ← Templating.CommandLine.program Templating.Disk.system args
  IO.print outcome.stdout
  IO.eprint outcome.stderr
  return outcome.code.toUInt32
