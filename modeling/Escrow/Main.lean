import Escrow.Program.Run
import Std.Time.DateTime.Timestamp

/-!
# The program

Reads the files that a command line names, runs it, makes the changes and prints
the rest.
-/

namespace Escrow

/-- The code of the error that a path goes through something that is no directory. -/
def notADirectory : UInt32 := 20

/-- What there is at a path. -/
def readPath (path : String) : IO File := do
  try
    return .text (← IO.FS.readFile path)
  catch
    | .noFileOrDirectory .. | .invalidArgument .. => return .absent
    | .inappropriateType _ code _ => return if code = notADirectory then .absent else .unreadable
    | _ => return .unreadable

/-- What there is at some paths, and nothing anywhere else. -/
def readPaths : List String → IO Files
  | [] => return fun _ => .absent
  | path :: rest => return (← readPaths rest).put path (← readPath path)

/-- The time. -/
def currentTime : IO Timestamp := do
  let now ← Std.Time.Timestamp.now
  let nanos := now.toNanosecondsSinceUnixEpoch.val
  return ⟨nanos / 1000000000, (nanos % 1000000000).toNat⟩

/-- A seed that nobody knows. -/
def randomSeed : IO (Octets 32) := do
  let bytes ← IO.getRandomBytes 32
  return (Octets.ofBytes? 32 bytes.toList).getD (.fill 32 0)

/-- Makes a change. -/
def makeChange : Change → IO Unit
  | .write _ path content => IO.FS.writeFile path content
  | .remove _ path => IO.FS.removeFile path
  | .makeDirectory path => IO.FS.createDirAll path

/-- Makes changes one after the other; gives the first one that cannot be made. -/
def makeChanges : List Change → IO (Option Change)
  | [] => return none
  | c :: rest => do
    try
      makeChange c
      makeChanges rest
    catch _ => return some c

/-- The environment of a command line. -/
def environment (args : List String) : IO Environment := do
  let paths := match Arguments.parse? args with
    | some (places, _) => places.ledger :: (places.config.toList ++ places.key.toList)
    | none => []
  return ⟨← readPaths paths, ← currentTime, ← randomSeed⟩

end Escrow

open Escrow in
/-- Runs a command line. -/
def main (args : List String) : IO UInt32 := do
  let outcome := runArguments (← environment args) args
  let shown := outcome.shown (← makeChanges outcome.changes)
  IO.print shown.output
  if let some message := shown.error then IO.eprintln ("error: " ++ message)
  return UInt32.ofNat shown.code
