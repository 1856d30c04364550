import ThreeAddress.Generator.Basic
import ThreeAddress.Lowering.Defect

namespace ThreeAddress.Lowering

open Checked Code

/-- The code generator, and the temporaries of the variables declared so far, latest first. -/
structure State where
  generator : Generator := {}
  bound : List (VarId × Temp) := []

inductive Failure where
  | defect (d : Defect)
  | fault (f : Fault)
deriving DecidableEq

/-- An action on the state. The state outlives a failure. -/
abbrev Lower := EStateM Failure State

/-- What holds throughout a method: the symbols, and the receiver unless the method is static. -/
structure Env where
  symbols : SymbolTable
  receiver : Option Temp

def reject {α : Type} (kind : DefectKind) (span : Span) : Lower α :=
  throw (.defect ⟨kind, span⟩)

def step {α : Type} (f : Generator → α × Generator) : Lower α :=
  modifyGet fun s =>
    let (a, g) := f s.generator
    (a, { s with generator := g })

def attempt {α : Type} (f : Generator → Except Fault (α × Generator)) : Lower α := do
  let s ← get
  match f s.generator with
  | .ok (a, g) =>
    set { s with generator := g }
    return a
  | .error fault => throw (.fault fault)

def freshTemp : Lower Temp :=
  step Generator.freshTemp

def freshLabel (stem : String) : Lower Label :=
  step (·.freshLabel stem)

def append (i : Instr) : Lower Unit :=
  step fun g => ((), g.append i)

def compute (instr : Temp → Instr) : Lower Temp :=
  step (·.compute instr)

def constant (n : Int32) : Lower Temp :=
  compute (.constant · n)

def operate (op : BinaryOp) (left right : Temp) : Lower Temp :=
  compute (.binary · op left right)

def load (base : Temp) (offset : Int32) : Lower Temp :=
  compute (.load · base offset)

def pass (t : Temp) : Lower Unit :=
  step fun g => ((), g.pass t)

def call (instr : Option Temp → Instr) (type : DataType) : Lower (Option Temp) :=
  step (·.call instr type)

def callRoutine (r : Routine) : Lower (Option Temp) :=
  attempt (·.callRoutine r)

def place (l : Label) : Lower Unit :=
  attempt fun g => (g.place l).map ((), ·)

def declare (v : VarId) : Lower Temp := do
  let t ← freshTemp
  modify fun s => { s with bound := (v, t) :: s.bound }
  return t

namespace Env

def findClass (env : Env) (c : ClassId) (span : Span) : Lower ClassSymbol :=
  match env.symbols.class? c with
  | some symbol => return symbol
  | none => reject (.unknownClass c) span

def findMethod (env : Env) (m : MethodId) (span : Span) : Lower MethodSymbol :=
  match env.symbols.method? m with
  | some symbol => return symbol
  | none => reject (.unknownMethod m) span

def findVar (env : Env) (v : VarId) (span : Span) : Lower VariableSymbol :=
  match env.symbols.var? v with
  | some symbol => return symbol
  | none => reject (.unknownVariable v) span

def findReceiver (env : Env) (span : Span) : Lower Temp :=
  match env.receiver with
  | some t => return t
  | none => reject .missingReceiver span

def findTemp (env : Env) (v : VarId) (span : Span) : Lower Temp := do
  let s ← get
  match s.bound.lookup v with
  | some t => return t
  | none =>
    let symbol ← env.findVar v span
    reject (.unboundVariable symbol.name) span

end Env

/-- The result of a call whose value is needed. -/
def demand (result : Option Temp) (span : Span) : Lower Temp :=
  match result with
  | some t => return t
  | none => reject .voidValue span

end ThreeAddress.Lowering
