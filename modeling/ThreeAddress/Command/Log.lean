import ThreeAddress.Generator.Basic

namespace ThreeAddress.Command

open Code

inductive Level where
  | error
  | info
  | debug
  | trace
deriving DecidableEq

namespace Level

def text : Level → String
  | .error => "ERROR"
  | .info => "INFO"
  | .debug => "DEBUG"
  | .trace => "TRACE"

def threshold : Level → Nat
  | .error => 0
  | .info => 2
  | .debug => 3
  | .trace => 4

end Level

def logLine (verbosity : Nat) (level : Level) (message : String) : String :=
  if level.threshold ≤ verbosity then level.text ++ " - " ++ message ++ "\n" else ""

def eventLevel : Event → Level
  | .labelIssued _ | .appended _ => .trace
  | .functionOpened _ | .functionClosed _ _ | .noted _ => .debug

def eventMessage : Event → Except Fault String
  | .labelIssued l => .ok ("New label " ++ l.text)
  | .functionOpened name => .ok ("Begin function " ++ name)
  | .functionClosed name length =>
    .ok ("End function " ++ name ++ " (" ++ toString length ++ " instructions)")
  | .appended i => do
    let text ← i.text
    .ok ("Emit " ++ text)
  | .noted message => .ok message

/-- Adds the line of an event. The message is only made where it is shown. -/
def addEvent (verbosity : Nat) (w : Written) (event : Event) : Written :=
  if (eventLevel event).threshold ≤ verbosity then
    match eventMessage event with
    | .ok message => w.add (logLine verbosity (eventLevel event) message)
    | .error f => w.fail f
  else w

/-- The log of a run as far as it can be written. -/
def eventLog (verbosity : Nat) (events : List Event) : Written :=
  events.foldl (addEvent verbosity) {}

end ThreeAddress.Command
