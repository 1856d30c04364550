import ThreeAddress.Checked.Symbols
import ThreeAddress.Json.Value

namespace ThreeAddress.Checked

open Json (Value)

def filled (name : String) (content : Value) : Value :=
  .object [(name, content)]

def indexValue (n : UInt64) : Value :=
  .integer n.toNat

def wordValue (n : Int32) : Value :=
  .integer n.toInt

def optionValue {α : Type} (f : α → Value) : Option α → Value
  | none => .null
  | some a => f a

def Span.value (s : Span) : Value :=
  .object [("start", indexValue s.start), ("end", indexValue s.stop)]

def ClassId.value (c : ClassId) : Value := indexValue c.index

def MethodId.value (m : MethodId) : Value := indexValue m.index

def VarId.value (v : VarId) : Value := indexValue v.index

def DataType.value : DataType → Value
  | .void => .string "Void"
  | .null => .string "Null"
  | .int => .string "Int"
  | .bool => .string "Bool"
  | .string => .string "String"
  | .object c => filled "Class" c.value
  | .array element => filled "Array" element.value

def Literal.value : Literal → Value
  | .int n => filled "Int" (wordValue n)
  | .bool b => filled "Bool" (.bool b)
  | .string s => filled "String" (.string s)

def BinaryOp.value : BinaryOp → Value
  | .add => .string "Add"
  | .subtract => .string "Subtract"
  | .multiply => .string "Multiply"
  | .divide => .string "Divide"
  | .modulo => .string "Modulo"
  | .less => .string "LessThan"
  | .lessEqual => .string "LessThanEqual"
  | .greater => .string "GreaterThan"
  | .greaterEqual => .string "GreaterThanEqual"
  | .equal => .string "Equal"
  | .notEqual => .string "NotEqual"
  | .and => .string "And"
  | .or => .string "Or"

def UnaryOp.value : UnaryOp → Value
  | .negate => .string "Negate"
  | .not => .string "Not"

def LValue.value (l : LValue) : Value :=
  .string l.text

mutual

def Expr.value : Expr → Value
  | .mk kind type lvalue span =>
    .object [("kind", kind.value), ("ty", type.value), ("lvalue", lvalue.value),
      ("span", span.value)]

def ExprKind.value : ExprKind → Value
  | .literal l => filled "Literal" l.value
  | .null => .string "Null"
  | .this => .string "This"
  | .readInteger => .string "ReadInteger"
  | .readLine => .string "ReadLine"
  | .ident owner symbol =>
    filled "Ident" (.object [("owner", exprOptionValue owner), ("symbol", symbol.value)])
  | .indexed array index =>
    filled "Indexed" (.object [("array", array.value), ("index", index.value)])
  | .call c => filled "Call" c.value
  | .arrayLength array => filled "ArrayLength" array.value
  | .binary op left right =>
    filled "Binary" (.object [("op", op.value), ("lhs", left.value), ("rhs", right.value)])
  | .unary op operand => filled "Unary" (.object [("op", op.value), ("operand", operand.value)])
  | .newClass c => filled "NewClass" c.value
  | .newArray element length =>
    filled "NewArray" (.object [("element", element.value), ("length", length.value)])
  | .instanceOf object c =>
    filled "InstanceOf" (.object [("expr", object.value), ("class", c.value)])
  | .cast object c => filled "Cast" (.object [("expr", object.value), ("class", c.value)])
  | .shallowCopy source => filled "ShallowCopy" source.value
  | .newSameArray value count =>
    filled "NewSameArray" (.object [("value", value.value), ("count", count.value)])
  | .defaultIndex array index default =>
    filled "DefaultIndex"
      (.object [("array", array.value), ("index", index.value), ("default", default.value)])
  | .varBinding symbol => filled "VarBinding" symbol.value

def Call.value : Call → Value
  | .mk receiver method args =>
    .object [("receiver", exprOptionValue receiver), ("method", method.value),
      ("args", .array (exprValues args))]

def exprOptionValue : Option Expr → Value
  | none => .null
  | some e => e.value

def exprValues : List Expr → List Value
  | [] => []
  | e :: es => e.value :: exprValues es

end

mutual

def Stmt.value : Stmt → Value
  | .mk kind span => .object [("kind", kind.value), ("span", span.value)]

def StmtKind.value : StmtKind → Value
  | .varDef symbol => filled "VarDef" symbol.value
  | .block statements => filled "Block" (.object [("statements", .array (stmtValues statements))])
  | .exec e => filled "Exec" e.value
  | .assign target value =>
    filled "Assign" (.object [("target", target.value), ("value", value.value)])
  | .cond condition thenBranch elseBranch =>
    filled "If"
      (.object [("condition", condition.value), ("then_branch", thenBranch.value),
        ("else_branch", stmtOptionValue elseBranch)])
  | .whileLoop condition body =>
    filled "While" (.object [("condition", condition.value), ("body", body.value)])
  | .forLoop init condition update body =>
    filled "For"
      (.object [("init", stmtOptionValue init), ("condition", condition.value),
        ("update", stmtOptionValue update), ("body", body.value)])
  | .forEach binding array guard body =>
    filled "Foreach"
      (.object [("binding", binding.value), ("array", array.value),
        ("guard", exprOptionValue guard), ("body", body.value)])
  | .ret value => filled "Return" (exprOptionValue value)
  | .leave => .string "Break"
  | .print args => filled "Print" (.array (exprValues args))
  | .guarded alternatives last =>
    filled "Guarded"
      (.object [("alternatives", .array (branchValues alternatives)), ("last", last.value)])

def Branch.value : Branch → Value
  | .mk guard body => .object [("guard", guard.value), ("body", body.value)]

def stmtOptionValue : Option Stmt → Value
  | none => .null
  | some s => s.value

def stmtValues : List Stmt → List Value
  | [] => []
  | s :: ss => s.value :: stmtValues ss

def branchValues : List Branch → List Value
  | [] => []
  | b :: bs => b.value :: branchValues bs

end

def MethodDef.value (m : MethodDef) : Value :=
  .object [("name", .string m.name), ("method", m.method.value),
    ("body", .object [("statements", .array (stmtValues m.body))]), ("span", m.span.value)]

def ClassDef.value (c : ClassDef) : Value :=
  .object [("name", .string c.name), ("class", c.id.value),
    ("methods", .array (c.methods.map MethodDef.value)), ("span", c.span.value)]

def Program.value (p : Program) : Value :=
  .object [("classes", .array (p.classes.map ClassDef.value))]

def ClassSymbol.value (c : ClassSymbol) : Value :=
  .object [("name", .string c.name), ("parent", optionValue ClassId.value c.parent),
    ("size", wordValue c.size), ("vtable", .string c.vtable), ("allocator", .string c.allocator)]

def MethodSymbol.value (m : MethodSymbol) : Value :=
  .object [("name", .string m.name), ("class", m.owner.value), ("label", .string m.label),
    ("offset", wordValue m.offset), ("return_type", m.returnType.value),
    ("is_static", .bool m.isStatic), ("this", optionValue VarId.value m.this),
    ("params", .array (m.params.map VarId.value))]

def VarKind.value : VarKind → Value
  | .localVar => .string "Local"
  | .param => .string "Param"
  | .field => .string "Field"

def VariableSymbol.value (v : VariableSymbol) : Value :=
  .object [("name", .string v.name), ("kind", v.kind.value), ("ty", v.type.value),
    ("offset", wordValue v.offset)]

def SymbolTable.value (s : SymbolTable) : Value :=
  .object [("classes", .array (s.classes.toList.map ClassSymbol.value)),
    ("methods", .array (s.methods.toList.map MethodSymbol.value)),
    ("variables", .array (s.vars.toList.map VariableSymbol.value))]

def CheckedUnit.value (u : CheckedUnit) : Value :=
  .object [("program", u.program.value), ("symbols", u.symbols.value)]

def CheckedUnit.text (u : CheckedUnit) : String :=
  u.value.text

end ThreeAddress.Checked
