namespace ThreeAddress.Command

inductive Task where
  | check (file : String)
  | translate (file : String) (output : Option String)
deriving DecidableEq

def Task.file : Task → String
  | .check file | .translate file _ => file

/-- A task, and how much of its course is logged. -/
structure Invocation where
  verbosity : Nat := 1
  task : Task
deriving DecidableEq

/-- An argument by its form. Both kinds of options may bring a value along. -/
inductive Argument where
  | long (name : String) (attached : Option String)
  | short (letter : Char) (attached : Option String)
  | separator
  | plain (text : String)
deriving DecidableEq

namespace Argument

def splitEquals (cs : List Char) : List Char × Option (List Char) :=
  let name := cs.takeWhile (· ≠ '=')
  match cs.drop name.length with
  | [] => (name, none)
  | _ :: attached => (name, some attached)

/-- The value right behind an option letter, without an equals sign before it. -/
def attachedValue : List Char → Option String
  | [] => none
  | '=' :: cs => some (String.ofList cs)
  | cs => some (String.ofList cs)

/-- A single dash is no option. -/
def ofString (arg : String) : Argument :=
  match arg.toList with
  | ['-', '-'] => .separator
  | '-' :: '-' :: cs =>
    let (name, attached) := splitEquals cs
    .long (String.ofList name) (attached.map String.ofList)
  | '-' :: c :: cs => .short c (attachedValue cs)
  | _ => .plain arg

end Argument

/-- An unsigned 64-bit integer in decimal, possibly with a plus sign. -/
def parseVerbosity (s : String) : Option Nat :=
  let digits := match s.toList with
    | '+' :: cs => cs
    | cs => cs
  if digits.isEmpty || digits.any (fun c => c < '0' || '9' < c) then none
  else
    let n := digits.foldl (fun n c => n * 10 + (c.toNat - '0'.toNat)) 0
    if n < UInt64.size then some n else none

/-- What the next argument of a subcommand can be. -/
inductive Expected where
  | anything
  | output
  | file
deriving DecidableEq

/-- The arguments of a subcommand read so far. -/
structure Operands where
  expected : Expected := .anything
  file : Option String := none
  output : Option String := none
deriving DecidableEq

namespace Operands

def addFile (o : Operands) (file : String) : Option Operands :=
  match o.file with
  | none => some { o with file := some file }
  | some _ => none

def addOutput (o : Operands) (output : String) : Option Operands :=
  match o.output with
  | none => some { o with expected := .anything, output := some output }
  | some _ => none

def startOutput (o : Operands) : Option String → Option Operands
  | some v => o.addOutput v
  | none => some { o with expected := .output }

/-- Takes one more argument. Behind the separator every argument is a file, whatever its form. -/
def add (takesOutput : Bool) (o : Operands) (arg : String) : Option Operands :=
  match o.expected, Argument.ofString arg with
  | .file, _ => o.addFile arg
  | .output, .plain v => o.addOutput v
  | .output, _ => none
  | .anything, .separator => some { o with expected := .file }
  | .anything, .plain file => o.addFile file
  | .anything, .long "output" attached | .anything, .short 'o' attached =>
    if takesOutput then o.startOutput attached else none
  | .anything, _ => none

def parse? (takesOutput : Bool) (args : List String) : Option Operands := do
  let o ← args.foldlM (add takesOutput) {}
  if o.expected = .output then none else some o

end Operands

def Task.parse? : List String → Option Task
  | "check" :: args => do
    let o ← Operands.parse? false args
    let file ← o.file
    some (.check file)
  | "translate" :: args => do
    let o ← Operands.parse? true args
    let file ← o.file
    some (.translate file o.output)
  | _ => none

namespace Invocation

def parseVerbose (verbosity : String) (args : List String) : Option Invocation := do
  let n ← parseVerbosity verbosity
  let task ← Task.parse? args
  some { verbosity := n, task := task }

def parse? : List String → Option Invocation
  | [] => none
  | arg :: args =>
    match Argument.ofString arg, args with
    | .long "verbose" (some v), args | .short 'v' (some v), args => parseVerbose v args
    | .long "verbose" none, v :: args | .short 'v' none, v :: args =>
      match Argument.ofString v with
      | .plain v => parseVerbose v args
      | _ => none
    | .plain _, _ => do
      let task ← Task.parse? (arg :: args)
      some { task := task }
    | _, _ => none

end Invocation

end ThreeAddress.Command
