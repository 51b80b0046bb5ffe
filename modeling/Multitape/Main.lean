import Multitape.CommandLine.Session

/-!
The program itself: it reads what the command line asks for and writes the outcome. Nothing is
logged, and even a terminal is read to its end without a prompt.
-/

set_option autoImplicit false
set_option relaxedAutoImplicit false

open Multitape CommandLine

/-- What an error of the operating system means for a path. Its number may come with its sign
changed. -/
def pathFault (error : IO.Error) : PathFault :=
  let number (code : UInt32) := min code.toNat (Nat.pow 2 32 - code.toNat)
  match error with
  | .noFileOrDirectory _ _ _ => .missing
  | .inappropriateType _ code text =>
    if number code = 20 then .notADirectory
    else if number code = 21 then .isADirectory
    else .other text
  | .invalidArgument _ code text => if number code = 36 then .nameTooLong else .other text
  | error => .other (toString error)

/-- The bytes of a file, or why there are none. -/
def readFile (path : String) : IO (Except PathFault ByteArray) := do
  try
    return .ok (← IO.FS.readBinFile path)
  catch error =>
    return .error (pathFault error)

def main (arguments : List String) : IO UInt32 := do
  let outcome ← match Request.ofArguments? arguments with
    | none => pure (some refused)
    | some r => do
      let file ← match r.file with
        | none => pure (.error .missing)
        | some path => readFile path
      let stdin ← if r.readsInput then (← IO.getStdin).readBinToEnd else pure .empty
      pure (r.respond .off (fun _ ↦ file) patience stdin)
  let outcome := outcome.getD refused
  (← IO.getStdout).putStr outcome.stdout
  (← IO.getStderr).putStr outcome.stderr
  return outcome.code.toUInt32
