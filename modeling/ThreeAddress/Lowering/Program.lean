import ThreeAddress.Lowering.Stmt

namespace ThreeAddress.Lowering

open Checked Code

def receiverOf (symbol : MethodSymbol) : Option VarId :=
  if symbol.isStatic then none else symbol.this

def declareReceiver (symbol : MethodSymbol) : Lower (Option Temp) :=
  match receiverOf symbol with
  | some v => do
    let t ← declare v
    return some t
  | none => return none

def declareParams : List VarId → Lower (List Temp)
  | [] => return []
  | v :: vs => do
    let t ← declare v
    let ts ← declareParams vs
    return t :: ts

/-- Lowers a method to a function. The receiver and the parameters get the first temporaries. -/
def lowerMethod (symbols : SymbolTable) (m : MethodDef) : Lower Function := do
  let symbol ← Env.findMethod ⟨symbols, none⟩ m.method m.span
  step fun g => ((), g.note (.noted ("Lowering method " ++ m.name ++ " as " ++ symbol.label)))
  let receiver ← declareReceiver symbol
  let params ← declareParams symbol.params
  step fun g => ((), g.openFunction symbol.label (receiver.toList ++ params))
  Stmt.lowerAll ⟨symbols, receiver⟩ none m.body
  step Generator.closeFunction

/-- The generator after the methods so far, their functions, and the defects of those that have
none. -/
structure Progress where
  generator : Generator := {}
  functions : List Function := []
  defects : List Defect := []

namespace Progress

def addMethod (symbols : SymbolTable) (c : ClassDef) (done : Progress) (m : MethodDef) :
    Except Fault Progress :=
  match lowerMethod symbols m { generator := done.generator } with
  | .ok f s => .ok { done with generator := s.generator, functions := done.functions ++ [f] }
  | .error (.defect d) s =>
    let message := "Lowering " ++ c.name ++ "." ++ m.name ++ " failed: " ++ d.kind.message
    .ok { done with generator := s.generator.note (.noted message), defects := done.defects ++ [d] }
  | .error (.fault f) _ => .error f

def addClass (symbols : SymbolTable) (done : Progress) (c : ClassDef) : Except Fault Progress :=
  let g := done.generator.note (.noted ("Lowering class " ++ c.name))
  c.methods.foldlM (addMethod symbols c) { done with generator := g }

/-- A program, unless some method has a defect. -/
def outcome (done : Progress) : Except (List Defect) Code.Program :=
  if done.defects.isEmpty then .ok ⟨done.functions⟩ else .error done.defects

def events (done : Progress) : List Event :=
  done.generator.log.reverse

end Progress

def lowerClasses (symbols : SymbolTable) (classes : List ClassDef) : Except Fault Progress :=
  classes.foldlM (Progress.addClass symbols) {}

def summary (defects : List Defect) : String :=
  "Lowering failed with " ++ toString defects.length ++ " error(s)"

end ThreeAddress.Lowering

namespace ThreeAddress.Checked

open Lowering

/-- Lowers a unit: one function per method, or one defect per method that has any. -/
def CheckedUnit.lower (u : CheckedUnit) : Except Code.Fault (Except (List Defect) Code.Program) :=
  (lowerClasses u.symbols u.program.classes).map Progress.outcome

end ThreeAddress.Checked
