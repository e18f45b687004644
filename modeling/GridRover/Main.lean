import GridRover.CommandLine.Session

/-!
# The program

Reads the files that the command line names, lets a session answer and prints its output.
-/

namespace GridRover

/-- The reason why reading a file failed. -/
def readErrorOf (e : IO.Error) : Disk.ReadError :=
  match e with
  | .noFileOrDirectory .. => .missing
  | .inappropriateType _ code _ => if code = 21 then .directory else .notDirectory
  | .invalidArgument .. => .nameTooLong
  | e => .other (toString e)

def readBytes (path : String) : IO (Except Disk.ReadError ByteArray) := do
  try return .ok (← IO.FS.readBinFile path)
  catch e => return .error (readErrorOf e)

/-- Waits forever, as a session without an exit code does. -/
partial def waitForever : IO UInt32 := do
  IO.sleep 1000
  waitForever

/-- Lets a session answer the arguments, and ends with its exit code. -/
def runSession (arguments : List String) : IO UInt32 := do
  let stdout ← IO.getStdout
  let stderr ← IO.getStderr
  let color := Console.wantsColor (← IO.getEnv "CLICOLOR_FORCE") (← IO.getEnv "NO_COLOR")
    (← IO.getEnv "CLICOLOR") (← stdout.isTty)
  let files ← (CommandLine.paths arguments).mapM fun path => do return (path, ← readBytes path)
  let disk : Disk := ⟨fun path => (files.lookup path).getD (.error .missing)⟩
  let outcome := CommandLine.respond color disk arguments
  for chunk in outcome.output do
    match chunk with
    | .out text => stdout.putStr text
    | .err text => stderr.putStr text
  stdout.flush
  match outcome.exit with
  | some code => return UInt32.ofNat code
  | none => waitForever

end GridRover

def main (arguments : List String) : IO UInt32 := GridRover.runSession arguments
