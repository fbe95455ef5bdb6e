import TickScript.CommandLine

/-!
# The program

Reads the files that a command names, carries the command out, and prints what it gives.
-/

namespace TickScript.CommandLine

/-- Why a file could not be read. A path that cannot be opened is named in the error, and a
folder is opened before it is found to be one. -/
def problemOf : IO.Error → FileProblem
  | .inappropriateType (some _) _ _ => .notFolder
  | .inappropriateType none _ _ => .isFolder
  | .invalidArgument _ _ _ => .nameTooLong
  | _ => .notFound

/-- The bytes of a file, or why there are none. -/
def readBytes (path : String) : IO (Except FileProblem (List UInt8)) := do
  try
    return .ok (← IO.FS.readBinFile path).toList
  catch e =>
    return .error (problemOf e)

/-- The file that `--log` asks for. -/
def logFile : String := "seemm.log"

/-- Carries out a command on the files of the working directory and answers its exit code. -/
def performIn (i : Invocation) : IO UInt32 := do
  if i.log then IO.FS.writeFile logFile ""
  let found ← i.paths.mapM fun path => do return (path, ← readBytes path)
  let outcome := execute (fun path => (found.lookup path).getD (.error .notFound)) i
  IO.print outcome.out
  IO.eprint outcome.err
  return UInt32.ofNat outcome.code

end TickScript.CommandLine

open TickScript.CommandLine in
def main (arguments : List String) : IO UInt32 := do
  match Invocation.ofArguments? arguments with
  | none =>
    IO.eprintln "error: invalid arguments"
    return 2
  | some invocation => performIn invocation
