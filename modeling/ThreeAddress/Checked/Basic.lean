import ThreeAddress.Text.Quoted

namespace ThreeAddress.Checked

/-- A byte range of the source text. -/
structure Span where
  start : UInt64 := 0
  stop : UInt64 := 0
deriving DecidableEq, Inhabited

def Span.text (s : Span) : String :=
  toString s.start.toNat ++ ".." ++ toString s.stop.toNat

/-- A class by its place in the symbol table. -/
structure ClassId where
  index : UInt64
deriving DecidableEq, Inhabited

/-- A method by its place in the symbol table. -/
structure MethodId where
  index : UInt64
deriving DecidableEq, Inhabited

/-- A variable by its place in the symbol table. -/
structure VarId where
  index : UInt64
deriving DecidableEq, Inhabited

def idText (index : UInt64) : String :=
  "#" ++ toString index.toNat

def ClassId.text (c : ClassId) : String := idText c.index

def MethodId.text (m : MethodId) : String := idText m.index

def VarId.text (v : VarId) : String := idText v.index

inductive DataType where
  | void
  | null
  | int
  | bool
  | string
  | object (c : ClassId)
  | array (element : DataType)
deriving DecidableEq, Inhabited

namespace DataType

def text : DataType → String
  | .void => "void"
  | .null => "null"
  | .int => "int"
  | .bool => "bool"
  | .string => "string"
  | .object c => "class " ++ c.text
  | .array element => element.text ++ "[]"

def class? : DataType → Option ClassId
  | .object c => some c
  | _ => none

def isVoid : DataType → Bool
  | .void => true
  | _ => false

end DataType

inductive Literal where
  | int (n : Int32)
  | bool (b : Bool)
  | string (s : String)
deriving DecidableEq

def Literal.text : Literal → String
  | .int n => toString n.toInt
  | .bool true => "true"
  | .bool false => "false"
  | .string s => Text.quoted s

inductive BinaryOp where
  | add
  | subtract
  | multiply
  | divide
  | modulo
  | less
  | lessEqual
  | greater
  | greaterEqual
  | equal
  | notEqual
  | and
  | or
deriving DecidableEq

def BinaryOp.text : BinaryOp → String
  | .add => "+"
  | .subtract => "-"
  | .multiply => "*"
  | .divide => "/"
  | .modulo => "%"
  | .less => "<"
  | .lessEqual => "<="
  | .greater => ">"
  | .greaterEqual => ">="
  | .equal => "=="
  | .notEqual => "!="
  | .and => "&&"
  | .or => "||"

inductive UnaryOp where
  | negate
  | not
deriving DecidableEq

def UnaryOp.text : UnaryOp → String
  | .negate => "-"
  | .not => "!"

/-- What an expression denotes as the target of an assignment. -/
inductive LValue where
  | notLValue
  | localVar
  | paramVar
  | memberVar
  | arrayElement
deriving DecidableEq, Inhabited

def LValue.text : LValue → String
  | .notLValue => "NotLValue"
  | .localVar => "LocalVar"
  | .paramVar => "ParamVar"
  | .memberVar => "MemberVar"
  | .arrayElement => "ArrayElement"

end ThreeAddress.Checked
