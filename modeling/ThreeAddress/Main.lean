import ThreeAddress.Command.Run

namespace ThreeAddress.Command

/-- The reason that the system gives, in its own words and with its number. -/
def reason (e : IO.Error) : FileError :=
  let said (code : UInt32) (details : String) :=
    FileError.other (details ++ " (os error " ++ toString code ++ ")")
  match e with
  | .noFileOrDirectory _ code details | .interrupted _ code details
  | .alreadyExists _ code details | .invalidArgument _ code details
  | .permissionDenied _ code details | .resourceExhausted _ code details
  | .inappropriateType _ code details | .noSuchThing _ code details
  | .otherError code details | .resourceBusy code details | .resourceVanished code details
  | .unsupportedOperation code details | .hardwareFault code details
  | .unsatisfiedConstraints code details | .illegalOperation code details
  | .protocolError code details | .timeExpired code details => said code details
  | .unexpectedEof | .userError _ => .other (toString e)

def readInput (file : String) : IO (Except FileError String) := do
  try
    match String.fromUTF8? (← IO.FS.readBinFile file) with
    | some text => return .ok text
    | none => return .error .notText
  catch e => return .error (reason e)

def Course.finishOnSystem : Course → IO Ending
  | .ended e => return e
  | .writing path text written refused => do
    try
      IO.FS.writeFile path text
      return written
    catch e => return refused (reason e)

def runOnSystem (args : List String) : IO UInt32 := do
  match Invocation.parse? args with
  | none => return 2
  | some inv =>
    let e ← (inv.course (← readInput inv.task.file)).finishOnSystem
    IO.print e.stdout
    IO.eprint e.stderr
    return e.status.toUInt32

end ThreeAddress.Command

def main (args : List String) : IO UInt32 :=
  ThreeAddress.Command.runOnSystem args
