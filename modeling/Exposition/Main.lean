import Exposition.Command.Run
import Exposition.Log.Time
import Std.Time.DateTime.Timestamp

/-!
# The program

Reads the input and the clock, runs the command and writes what it gives.
-/

namespace Exposition

/-- A failed call of the system in words: the system's own text, then its number. -/
def systemFault (e : IO.Error) : DeviceFault :=
  match e with
  | .alreadyExists _ code text | .interrupted _ code text | .noFileOrDirectory _ code text
  | .invalidArgument _ code text | .permissionDenied _ code text | .resourceExhausted _ code text
  | .inappropriateType _ code text | .noSuchThing _ code text | .otherError code text
  | .resourceBusy code text | .resourceVanished code text | .unsupportedOperation code text
  | .hardwareFault code text | .unsatisfiedConstraints code text | .illegalOperation code text
  | .protocolError code text | .timeExpired code text =>
    ⟨String.join [text, " (os error ", toString code, ")"]⟩
  | .unexpectedEof | .userError _ => ⟨toString e⟩

/-- Everything that a stream holds, piece by piece. -/
partial def readPieces (stream : IO.FS.Stream) (pieces : Array Piece) : IO (Array Piece) := do
  match ← (stream.read 65536).toBaseIO with
  | .error e => return pieces.push (.failed (systemFault e))
  | .ok bytes =>
    if bytes.isEmpty then return pieces
    else readPieces stream (pieces.push (.bytes bytes.data.toList))

def readStream (stream : IO.FS.Stream) : IO Source := return (← readPieces stream #[]).toList

/-- The contents of a file, or why it cannot be opened. -/
def readFileAt (path : String) : IO (Except DeviceFault Source) := do
  match ← (IO.FS.Handle.mk path .read).toBaseIO with
  | .error e => return .error (systemFault e)
  | .ok handle => return .ok (← readStream (.ofHandle handle))

/-- What a command line needs from outside. -/
def worldFor (request : Command.Request) : IO Command.World := do
  let now ← Std.Time.Timestamp.now
  let time := timeText (now.toNanosecondsSinceUnixEpoch.toInt / 1000)
  let world : Command.World :=
    { stdin := [], openFile := fun _ => .ok [], time := fun _ => time }
  match request with
  | .run { file := some path, .. } =>
    let input ← readFileAt path
    return { world with openFile := fun _ => input }
  | .run _ => return { world with stdin := ← readStream (← IO.getStdin) }
  | _ => return world

end Exposition

open Exposition in
def main (arguments : List String) : IO UInt32 := do
  let world ← worldFor (Command.readArguments arguments)
  let outcome := Command.run world arguments
  let output ← IO.getStdout
  output.write ⟨outcome.stdout.toArray⟩
  output.flush
  (← IO.getStderr).putStr outcome.stderr
  return outcome.exitCode.toUInt32
