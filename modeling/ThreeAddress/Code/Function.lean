import ThreeAddress.Code.Instr

namespace ThreeAddress.Code

/-- A function: its name, the temporaries of its parameters, receiver first, and its code. -/
structure Function where
  name : String := ""
  params : List Temp := []
  body : Array Instr := #[]
deriving DecidableEq, Inhabited

structure Program where
  functions : List Function
deriving DecidableEq

def Instr.indent : Instr → String
  | .label _ => "    "
  | _ => "        "

def Instr.line (i : Instr) : Except Fault String := do
  let text ← i.text
  .ok (i.indent ++ text ++ "\n")

namespace Function

def header (f : Function) : String :=
  "function " ++ f.name ++ "(" ++ ", ".intercalate (f.params.map Temp.text) ++ ")\n"

def text (f : Function) : Except Fault String := do
  let lines ← f.body.toList.mapM Instr.line
  .ok (f.header ++ String.join lines)

end Function

def Program.text (p : Program) : Except Fault String := do
  let texts ← p.functions.mapM Function.text
  .ok (String.join texts)

/-- The beginning of a text, and what kept it from going on. -/
structure Written where
  text : String := ""
  fault : Option Fault := none

namespace Written

def add (w : Written) (s : String) : Written :=
  match w.fault with
  | none => { w with text := w.text ++ s }
  | some _ => w

def fail (w : Written) (f : Fault) : Written :=
  match w.fault with
  | none => { w with fault := some f }
  | some _ => w

/-- Adds a line, or what comes before its address where that cannot be shown. -/
def addInstr (w : Written) (i : Instr) : Written :=
  match i.line, i with
  | .ok line, _ => w.add line
  | .error f, .load dst _ _ => (w.add (i.indent ++ dst.text ++ " = ")).fail f
  | .error f, i => (w.add i.indent).fail f

def addFunction (w : Written) (f : Function) : Written :=
  f.body.foldl addInstr (w.add f.header)

end Written

/-- The listing as far as it can be written. -/
def Program.written (p : Program) : Written :=
  p.functions.foldl Written.addFunction {}

end ThreeAddress.Code
