import ThreeAddress.Checked.Symbols

namespace ThreeAddress.Checked

/-- Operators that compare strings in another way than numbers. -/
def BinaryOp.comparesStrings : BinaryOp → Bool
  | .equal | .notEqual => true
  | _ => false

mutual

/-- An expression without annotations, and without its own type unless that is to be kept. -/
def Expr.bare (typed : Bool) : Expr → Expr
  | .mk kind type lvalue _ => .mk kind.bare (if typed then type else .void) lvalue {}

def ExprKind.bare : ExprKind → ExprKind
  | .literal l => .literal l
  | .null => .null
  | .this => .this
  | .readInteger => .readInteger
  | .readLine => .readLine
  | .ident owner symbol => .ident (bareOption owner) symbol
  | .indexed array index => .indexed (array.bare false) (index.bare false)
  | .call c => .call c.bare
  | .arrayLength array => .arrayLength (array.bare false)
  | .binary op left right =>
    .binary op (left.bare op.comparesStrings) (right.bare op.comparesStrings)
  | .unary op operand => .unary op (operand.bare false)
  | .newClass c => .newClass c
  | .newArray _ length => .newArray .void (length.bare false)
  | .instanceOf object c => .instanceOf (object.bare false) c
  | .cast object c => .cast (object.bare true) c
  | .shallowCopy source => .shallowCopy (source.bare true)
  | .newSameArray value count => .newSameArray (value.bare true) (count.bare false)
  | .defaultIndex array index fallback =>
    .defaultIndex (array.bare false) (index.bare false) (fallback.bare false)
  | .varBinding symbol => .varBinding symbol

def Call.bare : Call → Call
  | .mk receiver method args => .mk (bareOption receiver) method (bareAll args)

def bareOption : Option Expr → Option Expr
  | none => none
  | some e => some (e.bare false)

def bareAll : List Expr → List Expr
  | [] => []
  | e :: es => e.bare false :: bareAll es

end

mutual

def Stmt.bare : Stmt → Stmt
  | .mk kind _ => .mk kind.bare {}

def StmtKind.bare : StmtKind → StmtKind
  | .varDef symbol => .varDef symbol
  | .block statements => .block (Stmt.bareAll statements)
  | .exec e => .exec (e.bare false)
  | .assign target value => .assign (target.bare false) (value.bare false)
  | .cond condition thenBranch elseBranch =>
    .cond (condition.bare false) thenBranch.bare (Stmt.bareOption elseBranch)
  | .whileLoop condition body => .whileLoop (condition.bare false) body.bare
  | .forLoop init condition update body =>
    .forLoop (Stmt.bareOption init) (condition.bare false) (Stmt.bareOption update) body.bare
  | .forEach binding array guard body =>
    .forEach binding (array.bare false) (Checked.bareOption guard) body.bare
  | .ret value => .ret (Checked.bareOption value)
  | .leave => .leave
  | .print args => .print (args.map (Expr.bare true))
  | .guarded alternatives last => .guarded (Branch.bareAll alternatives) last.bare

def Branch.bare : Branch → Branch
  | .mk guard body => .mk (guard.bare false) body.bare

def Stmt.bareOption : Option Stmt → Option Stmt
  | none => none
  | some s => some s.bare

def Stmt.bareAll : List Stmt → List Stmt
  | [] => []
  | s :: ss => s.bare :: Stmt.bareAll ss

def Branch.bareAll : List Branch → List Branch
  | [] => []
  | b :: bs => b.bare :: Branch.bareAll bs

end

def MethodDef.bare (m : MethodDef) : MethodDef :=
  { name := "", method := m.method, body := Stmt.bareAll m.body, span := {} }

def ClassDef.bare (c : ClassDef) : ClassDef :=
  { name := "", id := ⟨0⟩, methods := c.methods.map MethodDef.bare, span := {} }

def ClassSymbol.bare (c : ClassSymbol) : ClassSymbol :=
  { c with name := "" }

/-- Of the type that a method returns it matters whether there is a value. -/
def MethodSymbol.bare (m : MethodSymbol) : MethodSymbol :=
  { m with
    name := ""
    owner := ⟨0⟩
    returnType := if m.returnType.isVoid then .void else .int }

def VariableSymbol.bare (v : VariableSymbol) : VariableSymbol :=
  { name := "", kind := .localVar, type := .void, offset := v.offset }

def SymbolTable.bare (s : SymbolTable) : SymbolTable where
  classes := s.classes.map ClassSymbol.bare
  methods := s.methods.map MethodSymbol.bare
  vars := s.vars.map VariableSymbol.bare

def CheckedUnit.bare (u : CheckedUnit) : CheckedUnit where
  program := ⟨u.program.classes.map ClassDef.bare⟩
  symbols := u.symbols.bare

section

variable (s : SymbolTable)

@[simp] theorem SymbolTable.class?_bare (c : ClassId) :
    s.bare.class? c = (s.class? c).map ClassSymbol.bare := by
  simp [SymbolTable.class?, SymbolTable.bare]

@[simp] theorem SymbolTable.method?_bare (m : MethodId) :
    s.bare.method? m = (s.method? m).map MethodSymbol.bare := by
  simp [SymbolTable.method?, SymbolTable.bare]

@[simp] theorem SymbolTable.var?_bare (v : VarId) :
    s.bare.var? v = (s.var? v).map VariableSymbol.bare := by
  simp [SymbolTable.var?, SymbolTable.bare]

@[simp] theorem SymbolTable.parent?_bare (c : ClassId) : s.bare.parent? c = s.parent? c := by
  simp only [SymbolTable.parent?, SymbolTable.class?_bare]
  cases s.class? c <;> rfl

theorem SymbolTable.reaches_bare (ancestor : ClassId) (steps : Nat) (c : ClassId) :
    s.bare.reaches ancestor steps c = s.reaches ancestor steps c := by
  induction steps generalizing c with
  | zero => rfl
  | succ steps ih => simp only [SymbolTable.reaches, SymbolTable.parent?_bare, ih]

theorem SymbolTable.assignable_bare (a b : DataType) :
    s.bare.assignable a b = s.assignable a b := by
  have hsize : s.bare.classes.size = s.classes.size := by simp [SymbolTable.bare]
  unfold SymbolTable.assignable
  split <;> simp [SymbolTable.derives, hsize, SymbolTable.reaches_bare]

end

@[simp] theorem MethodSymbol.isVoid_bare (m : MethodSymbol) :
    m.bare.returnType.isVoid = m.returnType.isVoid := by
  cases h : m.returnType.isVoid <;> simp only [MethodSymbol.bare, h] <;> rfl

end ThreeAddress.Checked
