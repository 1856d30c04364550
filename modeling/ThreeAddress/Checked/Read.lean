import ThreeAddress.Checked.Symbols
import ThreeAddress.Json.Reader

namespace ThreeAddress.Checked

open Json (Reader FieldSpec Fields Case)

def Span.reader : Reader Span :=
  .record (.record "Span")
    (.cons (.required "start" .index) <| .cons (.required "end" .index) .nil)
    Span.mk

def ClassId.reader : Reader ClassId := Reader.index.map ClassId.mk

def MethodId.reader : Reader MethodId := Reader.index.map MethodId.mk

def VarId.reader : Reader VarId := Reader.index.map VarId.mk

def spanField : FieldSpec Span :=
  .default "span" {} Span.reader

def DataType.readerWith (part : Reader DataType) : Reader DataType :=
  .sum [
    ⟨"Void", .nothing .void⟩,
    ⟨"Null", .nothing .null⟩,
    ⟨"Int", .nothing .int⟩,
    ⟨"Bool", .nothing .bool⟩,
    ⟨"String", .nothing .string⟩,
    ⟨"Class", .wrapped (ClassId.reader.map .object)⟩,
    ⟨"Array", .wrapped (part.map .array)⟩]

def DataType.readerIn : Nat → Reader DataType
  | 0 => fun _ _ => .error .malformed
  | rounds + 1 => DataType.readerWith (DataType.readerIn rounds)

def DataType.reader : Reader DataType :=
  fun depth d => DataType.readerIn (depth + 1) depth d

def Literal.reader : Reader Literal :=
  .sum [
    ⟨"Int", .wrapped (Reader.word.map .int)⟩,
    ⟨"Bool", .wrapped (Reader.flag.map .bool)⟩,
    ⟨"String", .wrapped (Reader.text.map .string)⟩]

def BinaryOp.reader : Reader BinaryOp :=
  .sum [
    ⟨"Add", .nothing .add⟩,
    ⟨"Subtract", .nothing .subtract⟩,
    ⟨"Multiply", .nothing .multiply⟩,
    ⟨"Divide", .nothing .divide⟩,
    ⟨"Modulo", .nothing .modulo⟩,
    ⟨"LessThan", .nothing .less⟩,
    ⟨"LessThanEqual", .nothing .lessEqual⟩,
    ⟨"GreaterThan", .nothing .greater⟩,
    ⟨"GreaterThanEqual", .nothing .greaterEqual⟩,
    ⟨"Equal", .nothing .equal⟩,
    ⟨"NotEqual", .nothing .notEqual⟩,
    ⟨"And", .nothing .and⟩,
    ⟨"Or", .nothing .or⟩]

def UnaryOp.reader : Reader UnaryOp :=
  .sum [
    ⟨"Negate", .nothing .negate⟩,
    ⟨"Not", .nothing .not⟩]

def LValue.reader : Reader LValue :=
  .sum [
    ⟨"NotLValue", .nothing .notLValue⟩,
    ⟨"LocalVar", .nothing .localVar⟩,
    ⟨"ParamVar", .nothing .paramVar⟩,
    ⟨"MemberVar", .nothing .memberVar⟩,
    ⟨"ArrayElement", .nothing .arrayElement⟩]

def recordCase {α : Type} {αs : List Type} (sum name : String) (fields : Fields αs)
    (build : Json.Curried αs α) : Case α :=
  ⟨name, .record (.record (.caseRecord sum name) fields build)⟩

def Call.readerWith (part : Reader Expr) : Reader Call :=
  .record (.record "CallExpr")
    (.cons (.optional "receiver" part) <| .cons (.required "method" MethodId.reader) <|
      .cons (.required "args" part.list) .nil)
    Call.mk

def ExprKind.readerWith (part : Reader Expr) : Reader ExprKind :=
  .sum [
    ⟨"Literal", .wrapped (Literal.reader.map .literal)⟩,
    ⟨"Null", .nothing .null⟩,
    ⟨"This", .nothing .this⟩,
    ⟨"ReadInteger", .nothing .readInteger⟩,
    ⟨"ReadLine", .nothing .readLine⟩,
    recordCase "ExprKind" "Ident"
      (.cons (.optional "owner" part) <| .cons (.required "symbol" VarId.reader) .nil)
      ExprKind.ident,
    recordCase "ExprKind" "Indexed"
      (.cons (.required "array" part) <| .cons (.required "index" part) .nil)
      ExprKind.indexed,
    ⟨"Call", .wrapped ((Call.readerWith part).map .call)⟩,
    ⟨"ArrayLength", .wrapped (part.map .arrayLength)⟩,
    recordCase "ExprKind" "Binary"
      (.cons (.required "op" BinaryOp.reader) <| .cons (.required "lhs" part) <|
        .cons (.required "rhs" part) .nil)
      ExprKind.binary,
    recordCase "ExprKind" "Unary"
      (.cons (.required "op" UnaryOp.reader) <| .cons (.required "operand" part) .nil)
      ExprKind.unary,
    ⟨"NewClass", .wrapped (ClassId.reader.map .newClass)⟩,
    recordCase "ExprKind" "NewArray"
      (.cons (.required "element" DataType.reader) <| .cons (.required "length" part) .nil)
      ExprKind.newArray,
    recordCase "ExprKind" "InstanceOf"
      (.cons (.required "expr" part) <| .cons (.required "class" ClassId.reader) .nil)
      ExprKind.instanceOf,
    recordCase "ExprKind" "Cast"
      (.cons (.required "expr" part) <| .cons (.required "class" ClassId.reader) .nil)
      ExprKind.cast,
    ⟨"ShallowCopy", .wrapped (part.map .shallowCopy)⟩,
    recordCase "ExprKind" "NewSameArray"
      (.cons (.required "value" part) <| .cons (.required "count" part) .nil)
      ExprKind.newSameArray,
    recordCase "ExprKind" "DefaultIndex"
      (.cons (.required "array" part) <| .cons (.required "index" part) <|
        .cons (.required "default" part) .nil)
      ExprKind.defaultIndex,
    ⟨"VarBinding", .wrapped (VarId.reader.map .varBinding)⟩]

def Expr.readerWith (part : Reader Expr) : Reader Expr :=
  .record (.record "Expr")
    (.cons (.required "kind" (ExprKind.readerWith part)) <|
      .cons (.required "ty" DataType.reader) <|
      .cons (.default "lvalue" .notLValue LValue.reader) <| .cons spanField .nil)
    Expr.mk

def Expr.readerIn : Nat → Reader Expr
  | 0 => fun _ _ => .error .malformed
  | rounds + 1 => Expr.readerWith (Expr.readerIn rounds)

def Expr.reader : Reader Expr :=
  fun depth d => Expr.readerIn (depth + 1) depth d

def blockReader (part : Reader Stmt) : Reader (List Stmt) :=
  .record (.record "Block") (.cons (.required "statements" part.list) .nil) id

def Branch.readerWith (part : Reader Stmt) : Reader Branch :=
  .record (.record "GuardedBranch")
    (.cons (.required "guard" Expr.reader) <| .cons (.required "body" part) .nil)
    Branch.mk

def StmtKind.readerWith (part : Reader Stmt) : Reader StmtKind :=
  .sum [
    ⟨"VarDef", .wrapped (VarId.reader.map .varDef)⟩,
    ⟨"Block", .wrapped ((blockReader part).map .block)⟩,
    ⟨"Exec", .wrapped (Expr.reader.map .exec)⟩,
    recordCase "StmtKind" "Assign"
      (.cons (.required "target" Expr.reader) <| .cons (.required "value" Expr.reader) .nil)
      StmtKind.assign,
    recordCase "StmtKind" "If"
      (.cons (.required "condition" Expr.reader) <| .cons (.required "then_branch" part) <|
        .cons (.optional "else_branch" part) .nil)
      StmtKind.cond,
    recordCase "StmtKind" "While"
      (.cons (.required "condition" Expr.reader) <| .cons (.required "body" part) .nil)
      StmtKind.whileLoop,
    recordCase "StmtKind" "For"
      (.cons (.optional "init" part) <| .cons (.required "condition" Expr.reader) <|
        .cons (.optional "update" part) <| .cons (.required "body" part) .nil)
      StmtKind.forLoop,
    recordCase "StmtKind" "Foreach"
      (.cons (.required "binding" VarId.reader) <| .cons (.required "array" Expr.reader) <|
        .cons (.optional "guard" Expr.reader) <| .cons (.required "body" part) .nil)
      StmtKind.forEach,
    ⟨"Return", .wrapped (Expr.reader.optional.map .ret)⟩,
    ⟨"Break", .nothing .leave⟩,
    ⟨"Print", .wrapped (Expr.reader.list.map .print)⟩,
    recordCase "StmtKind" "Guarded"
      (.cons (.required "alternatives" (Branch.readerWith part).list) <|
        .cons (.required "last" (Branch.readerWith part)) .nil)
      StmtKind.guarded]

def Stmt.readerWith (part : Reader Stmt) : Reader Stmt :=
  .record (.record "Stmt")
    (.cons (.required "kind" (StmtKind.readerWith part)) <| .cons spanField .nil)
    Stmt.mk

def Stmt.readerIn : Nat → Reader Stmt
  | 0 => fun _ _ => .error .malformed
  | rounds + 1 => Stmt.readerWith (Stmt.readerIn rounds)

def Stmt.reader : Reader Stmt :=
  fun depth d => Stmt.readerIn (depth + 1) depth d

def MethodDef.reader : Reader MethodDef :=
  .record (.record "MethodDef")
    (.cons (.required "name" .text) <| .cons (.required "method" MethodId.reader) <|
      .cons (.required "body" (blockReader Stmt.reader)) <| .cons spanField .nil)
    MethodDef.mk

def ClassDef.reader : Reader ClassDef :=
  .record (.record "ClassDef")
    (.cons (.required "name" .text) <| .cons (.required "class" ClassId.reader) <|
      .cons (.required "methods" MethodDef.reader.list) <| .cons spanField .nil)
    ClassDef.mk

def Program.reader : Reader Program :=
  .record (.record "Program") (.cons (.required "classes" ClassDef.reader.list) .nil) Program.mk

def ClassSymbol.reader : Reader ClassSymbol :=
  .record (.record "ClassSymbol")
    (.cons (.required "name" .text) <| .cons (.optional "parent" ClassId.reader) <|
      .cons (.required "size" .word) <| .cons (.required "vtable" .text) <|
      .cons (.required "allocator" .text) .nil)
    ClassSymbol.mk

def MethodSymbol.reader : Reader MethodSymbol :=
  .record (.record "MethodSymbol")
    (.cons (.required "name" .text) <| .cons (.required "class" ClassId.reader) <|
      .cons (.required "label" .text) <| .cons (.required "offset" .word) <|
      .cons (.required "return_type" DataType.reader) <| .cons (.required "is_static" .flag) <|
      .cons (.optional "this" VarId.reader) <| .cons (.required "params" VarId.reader.list) .nil)
    MethodSymbol.mk

def VarKind.reader : Reader VarKind :=
  .sum [
    ⟨"Local", .nothing .localVar⟩,
    ⟨"Param", .nothing .param⟩,
    ⟨"Field", .nothing .field⟩]

def VariableSymbol.reader : Reader VariableSymbol :=
  .record (.record "VariableSymbol")
    (.cons (.required "name" .text) <| .cons (.required "kind" VarKind.reader) <|
      .cons (.required "ty" DataType.reader) <| .cons (.default "offset" 0 .word) .nil)
    VariableSymbol.mk

def symbolsField {α : Type} (name : String) (r : Reader α) : FieldSpec (Array α) :=
  .default name #[] (r.list.map List.toArray)

def SymbolTable.reader : Reader SymbolTable :=
  .record (.record "SymbolTable")
    (.cons (symbolsField "classes" ClassSymbol.reader) <|
      .cons (symbolsField "methods" MethodSymbol.reader) <|
      .cons (symbolsField "variables" VariableSymbol.reader) .nil)
    SymbolTable.mk

def CheckedUnit.reader : Reader CheckedUnit :=
  .record (.record "CheckedUnit")
    (.cons (.required "program" Program.reader) <|
      .cons (.required "symbols" SymbolTable.reader) .nil)
    CheckedUnit.mk

def CheckedUnit.ofText (text : String) : Except Json.ReadError CheckedUnit :=
  CheckedUnit.reader.run text

end ThreeAddress.Checked
