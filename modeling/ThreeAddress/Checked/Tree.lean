import ThreeAddress.Checked.Basic

namespace ThreeAddress.Checked

mutual

inductive Expr where
  | mk (kind : ExprKind) (type : DataType) (lvalue : LValue) (span : Span)

inductive ExprKind where
  | literal (value : Literal)
  | null
  | this
  | readInteger
  | readLine
  | ident (owner : Option Expr) (symbol : VarId)
  | indexed (array index : Expr)
  | call (c : Call)
  | arrayLength (array : Expr)
  | binary (op : BinaryOp) (left right : Expr)
  | unary (op : UnaryOp) (operand : Expr)
  | newClass (c : ClassId)
  | newArray (element : DataType) (length : Expr)
  | instanceOf (object : Expr) (c : ClassId)
  | cast (object : Expr) (c : ClassId)
  | shallowCopy (source : Expr)
  | newSameArray (value count : Expr)
  | defaultIndex (array index default : Expr)
  | varBinding (symbol : VarId)

/-- A call of a method, static where there is no receiver. -/
inductive Call where
  | mk (receiver : Option Expr) (method : MethodId) (args : List Expr)

end

namespace Expr

def kind : Expr → ExprKind
  | .mk kind _ _ _ => kind

def type : Expr → DataType
  | .mk _ type _ _ => type

def lvalue : Expr → LValue
  | .mk _ _ lvalue _ => lvalue

def span : Expr → Span
  | .mk _ _ _ span => span

end Expr

mutual

inductive Stmt where
  | mk (kind : StmtKind) (span : Span)

inductive StmtKind where
  | varDef (symbol : VarId)
  | block (statements : List Stmt)
  | exec (e : Expr)
  | assign (target value : Expr)
  | cond (condition : Expr) (thenBranch : Stmt) (elseBranch : Option Stmt)
  | whileLoop (condition : Expr) (body : Stmt)
  | forLoop (init : Option Stmt) (condition : Expr) (update : Option Stmt) (body : Stmt)
  | forEach (binding : VarId) (array : Expr) (guard : Option Expr) (body : Stmt)
  | ret (value : Option Expr)
  | leave
  | print (args : List Expr)
  | guarded (alternatives : List Branch) (last : Branch)

/-- A statement that runs where its guard holds. -/
inductive Branch where
  | mk (guard : Expr) (body : Stmt)

end

structure MethodDef where
  name : String
  method : MethodId
  body : List Stmt
  span : Span

structure ClassDef where
  name : String
  id : ClassId
  methods : List MethodDef
  span : Span

structure Program where
  classes : List ClassDef

end ThreeAddress.Checked
