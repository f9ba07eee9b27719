import WordMachine.CommandLine.Shell

/-!
# The program

Reads the file a command names, or standard input, and prints the answer.
-/

namespace WordMachine.CommandLine

/-- The bytes of a file, or why there are none. -/
def readFile (path : String) : IO (Except FileFault (List Nat)) := do
  try
    let bytes ← IO.FS.readBinFile path
    return .ok (bytes.toList.map (·.toNat))
  catch
    | .noFileOrDirectory .. => return .error .missing
    | .inappropriateType _ code _ =>
      return .error (if code == 21 then .isADirectory else .notADirectory)
    | .permissionDenied .. => return .error .denied
    | .invalidArgument .. => return .error .nameTooLong
    | _ => return .error .notADirectory

end WordMachine.CommandLine

open WordMachine CommandLine

def main (words : List String) : IO UInt32 := do
  let source := match Invocation.read words with
    | .ok invocation => invocation.command.bind (·.source?)
    | .error _ => none
  let file ← match source with
    | some path => if path == "-" then pure (.ok []) else readFile (plainPath path)
    | none => pure (.ok [])
  let input ← if source == some "-" then (← IO.getStdin).readBinToEnd else pure .empty
  match answer (fun _ => file) (input.toList.map (·.toNat)) words with
  | .ok reply =>
    IO.print reply.stdout
    IO.eprint reply.stderr
    return reply.exit.toUInt32
  | .error (.interrupt (.fault fault)) =>
    IO.eprintln fault.message
    return 1
  | .error (.blank need) =>
    IO.eprintln need.message
    return 1
  | .error (.interrupt .endless) => return 1
