import ThreeAddress.Checked.Read
import ThreeAddress.Command.Arguments
import ThreeAddress.Command.Files
import ThreeAddress.Command.Log
import ThreeAddress.Lowering.Program

namespace ThreeAddress.Command

open Checked Code Lowering

/-- How a run ends. -/
structure Ending where
  status : Nat := 0
  stdout : String := ""
  stderr : String := ""
deriving DecidableEq

/-- How a run ends, with the files that it leaves. -/
structure Result extends Ending where
  files : Files

/-- How a run goes on once its input has been read: it ends, or there is a file to be written. -/
inductive Course where
  | ended (e : Ending)
  | writing (path text : String) (written : Ending) (refused : FileError → Ending)

def Course.finish (files : Files) : Course → Result
  | .ended e => { e with files }
  | .writing path text written refused =>
    match files.write path text with
    | .error e => { refused e with files }
    | .ok files => { written with files }

/-- Why a run fails, with its cause if there is one. -/
structure Problem where
  summary : String
  cause : Option String := none
deriving DecidableEq

/-- A cause is indented on every line. -/
def Problem.text (p : Problem) : String :=
  "Error: " ++ p.summary ++
    match p.cause with
    | none => "\n"
    | some cause => "\n\nCaused by:\n    " ++ "\n    ".intercalate (cause.splitOn "\n") ++ "\n"

/-- The cause behind a text that is no unit. What is said of malformed JSON, and where in the text,
is up to the library that reads it: fixed words stand for the one, and lines and columns are left
out. -/
def readCause (e : Json.ReadError) : String :=
  e.message?.getD "malformed text"

/-- The unit in a file, of which the text may have been read. -/
def unitIn (file : String) : Except FileError String → Except Problem CheckedUnit
  | .error e => .error ⟨"Could not read input file " ++ file, some e.message⟩
  | .ok text =>
    match CheckedUnit.ofText text with
    | .error e => .error ⟨"Could not load checked program from " ++ file, some (readCause e)⟩
    | .ok u => .ok u

def loadUnit (files : Files) (file : String) : Except Problem CheckedUnit :=
  unitIn file (files.read file)

def failed (log : String) (p : Problem) : Ending :=
  { status := 1, stderr := log ++ p.text }

/-- The run breaks down, with what was printed up to then. -/
def crashed (stdout log : String) (f : Fault) : Ending :=
  { status := 101, stdout := stdout, stderr := log ++ f.message ++ "\n" }

def deliver (inv : Invocation) (log : String) (p : Code.Program) : Course :=
  match inv.task with
  | .check file =>
    .ended { stderr := log ++ logLine inv.verbosity .info (file ++ " lowers cleanly") }
  | .translate _ none =>
    match p.text with
    | .error f => .ended (crashed p.written.text log f)
    | .ok text => .ended { stdout := text, stderr := log }
  | .translate _ (some path) =>
    match p.text with
    | .error f => .ended (crashed "" log f)
    | .ok text =>
      let message := "Wrote " ++ toString p.functions.length ++ " function(s) to " ++ path
      .writing path text { stderr := log ++ logLine inv.verbosity .info message } fun e =>
        failed log ⟨"Could not write output to " ++ path, some e.message⟩

/-- Goes on with the outcome of lowering: one error line per defect, or the program. -/
def conclude (inv : Invocation) (log : String) : Except (List Defect) Code.Program → Course
  | .ok p => deliver inv log p
  | .error defects =>
    let lines := defects.map fun d => logLine inv.verbosity .error d.diagnostic
    .ended (failed (log ++ String.join lines) ⟨summary defects, none⟩)

def process (inv : Invocation) (u : CheckedUnit) : Course :=
  match lowerClasses u.symbols u.program.classes with
  | .error f => .ended (crashed "" "" f)
  | .ok done =>
    match eventLog inv.verbosity done.events with
    | ⟨log, some f⟩ => .ended (crashed "" log f)
    | ⟨log, none⟩ => conclude inv log done.outcome

/-- The course of a run, by what came of reading the input file. -/
def Invocation.course (inv : Invocation) (input : Except FileError String) : Course :=
  match unitIn inv.task.file input with
  | .error p => .ended (failed "" p)
  | .ok u => process inv u

def Invocation.run (inv : Invocation) (files : Files) : Result :=
  (inv.course (files.read inv.task.file)).finish files

/-- Runs the command on a directory, unless the arguments are invalid. -/
def run? (args : List String) (files : Files) : Option Result :=
  (Invocation.parse? args).map (·.run files)

end ThreeAddress.Command
