import ThreeAddress.Checked.Tree

namespace ThreeAddress.Checked

structure ClassSymbol where
  name : String
  parent : Option ClassId
  size : Int32
  vtable : String
  allocator : String
deriving DecidableEq

structure MethodSymbol where
  name : String
  owner : ClassId
  label : String
  offset : Int32
  returnType : DataType
  isStatic : Bool
  this : Option VarId
  params : List VarId
deriving DecidableEq

inductive VarKind where
  | localVar
  | param
  | field
deriving DecidableEq

structure VariableSymbol where
  name : String
  kind : VarKind
  type : DataType
  offset : Int32
deriving DecidableEq

structure SymbolTable where
  classes : Array ClassSymbol := #[]
  methods : Array MethodSymbol := #[]
  vars : Array VariableSymbol := #[]
deriving DecidableEq

namespace SymbolTable

def class? (s : SymbolTable) (c : ClassId) : Option ClassSymbol :=
  s.classes[c.index.toNat]?

def method? (s : SymbolTable) (m : MethodId) : Option MethodSymbol :=
  s.methods[m.index.toNat]?

def var? (s : SymbolTable) (v : VarId) : Option VariableSymbol :=
  s.vars[v.index.toNat]?

def parent? (s : SymbolTable) (c : ClassId) : Option ClassId :=
  (s.class? c).bind (·.parent)

/-- Looks for an ancestor among a class and its next `steps - 1` ancestors. -/
def reaches (s : SymbolTable) (ancestor : ClassId) : Nat → ClassId → Bool
  | 0, _ => false
  | steps + 1, c =>
    if c = ancestor then true
    else match s.parent? c with
      | some p => s.reaches ancestor steps p
      | none => false

/-- Whether a class is the ancestor or derives from it. One step per class of the table and one more
reach every ancestor, also where the links form a cycle. -/
def derives (s : SymbolTable) (c ancestor : ClassId) : Bool :=
  s.reaches ancestor (s.classes.size + 1) c

/-- Whether a value of the first type may be used as the second without a check. -/
def assignable (s : SymbolTable) : DataType → DataType → Bool
  | .null, .object _ => true
  | .object c, .object p => s.derives c p
  | a, b => a = b

end SymbolTable

/-- A checked program together with its symbols. -/
structure CheckedUnit where
  program : Program
  symbols : SymbolTable

end ThreeAddress.Checked
