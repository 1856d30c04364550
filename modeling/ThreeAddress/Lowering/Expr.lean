import ThreeAddress.Lowering.Action

namespace ThreeAddress.Lowering

open Checked Code

/-- Where the length of an array is, seen from its first element. -/
def lengthOffset : Int32 := -wordSize

def loadLength (array : Temp) : Lower Temp :=
  load array lengthOffset

def addressOf (array index : Temp) : Lower Temp := do
  let word ← constant wordSize
  let offset ← operate .multiply index word
  operate .add array offset

def checkedAddress (array index : Temp) : Lower Temp := do
  append (.checkBounds array index)
  addressOf array index

def divisionMessage : String :=
  "Decaf runtime error: Division by zero error."

/-- Halts with a message if the divisor is zero. -/
def guardDivisor (divisor : Temp) : Lower Unit := do
  let message ← compute (.string · divisionMessage)
  let nonzero ← freshLabel "nonzero"
  let zero ← constant 0
  let isZero ← operate .equal divisor zero
  append (.jumpIfZero isZero nonzero)
  pass message
  let _ ← callRoutine .printString
  let _ ← callRoutine .halt
  place nonzero

def literal : Literal → Lower Temp
  | .int n => constant n
  | .bool b => constant (if b then 1 else 0)
  | .string s => compute (.string · s)

def compareStrings (op : BinaryOp) (left right : Temp) (span : Span) : Lower Temp := do
  pass left
  pass right
  let result ← callRoutine .stringEqual
  let equal ← demand result span
  if op = .notEqual then compute (.unary · .not equal) else return equal

def applyOp (op : BinaryOp) (leftType rightType : DataType) (left right : Temp) (span : Span) :
    Lower Temp :=
  match op with
  | .divide | .modulo => do
    guardDivisor right
    operate op left right
  | .equal | .notEqual =>
    if leftType = .string ∨ rightType = .string then compareStrings op left right span
    else operate op left right
  | _ => operate op left right

/-- Passes the operands and calls a method: by name, or through the virtual table of its
receiver. -/
def callMethod (method : MethodSymbol) (receiver : Option Temp) (args : List Temp) :
    Lower (Option Temp) := do
  (receiver.toList ++ args).forM pass
  match receiver with
  | none => call (.call · method.label) method.returnType
  | some receiver =>
    let vtable ← load receiver 0
    let callee ← load vtable method.offset
    call (.callTemp · callee) method.returnType

/-- The offsets of the fields in an object of the given size: every word but the first. -/
def fieldOffsets (size : Int32) : List Int32 :=
  (List.range ((size.toInt - 1) / 4).toNat).map fun i => Int32.ofNat (4 * (i + 1))

def copyField (object clone : Temp) (offset : Int32) : Lower Unit := do
  let field ← load object offset
  append (.store field clone offset)

def cloneObject (env : Env) (object : Temp) (c : ClassId) (span : Span) : Lower Temp := do
  let symbol ← env.findClass c span
  let size ← constant symbol.size
  pass size
  let result ← callRoutine .allocate
  let clone ← demand result span
  (fieldOffsets symbol.size).forM (copyField object clone)
  let vtable ← compute (.vtable · symbol.vtable)
  append (.store vtable clone 0)
  return clone

/-- A value to store: an object is cloned, everything else is taken as it is. -/
def cloneIfObject (env : Env) (t : Temp) (type : DataType) (span : Span) : Lower Temp :=
  match type.class? with
  | some c => cloneObject env t c span
  | none => return t

/-- Ends the body of a loop and places the label behind the loop. -/
def closeLoop (again leave : Label) : Lower Unit := do
  append (.jump again)
  place leave

/-- The temporaries and labels of a loop that fills a new array, up to the test of the index. -/
structure FillLoop where
  array : Temp
  word : Temp
  one : Temp
  index : Temp
  cursor : Temp
  more : Temp
  fill : Label
  filled : Label

def openFill (count : Temp) : Lower FillLoop := do
  let array ← compute (.newArray · count)
  let fill ← freshLabel "fill"
  let filled ← freshLabel "fill_end"
  let word ← constant wordSize
  let one ← constant 1
  let index ← constant 0
  let cursor ← freshTemp
  append (.copy cursor array)
  place fill
  let more ← operate .less index count
  append (.jumpIfZero more filled)
  return { array, word, one, index, cursor, more, fill, filled }

def FillLoop.store (loop : FillLoop) (stored : Temp) : Lower Unit := do
  append (.store stored loop.cursor 0)
  let nextCursor ← operate .add loop.cursor loop.word
  append (.copy loop.cursor nextCursor)
  let nextIndex ← operate .add loop.index loop.one
  append (.copy loop.index nextIndex)
  closeLoop loop.fill loop.filled

/-- Makes an array of which every element holds a value of the given type. -/
def fillArray (env : Env) (element count : Temp) (type : DataType) (span : Span) : Lower Temp := do
  let loop ← openFill count
  let stored ← cloneIfObject env element type span
  loop.store stored
  return loop.array

/-- Reads an element, or takes the fallback where the index is out of range. -/
def readOr (array index fallback : Temp) : Lower Temp := do
  let length ← loadLength array
  let result ← freshTemp
  let useDefault ← freshLabel "use_default"
  let inBounds ← freshLabel "in_bounds"
  let done ← freshLabel "default_end"
  let below ← operate .less index length
  append (.jumpIfZero below useDefault)
  let zero ← constant 0
  let negative ← operate .less index zero
  append (.jumpIfZero negative inBounds)
  place useDefault
  append (.copy result fallback)
  append (.jump done)
  place inBounds
  let address ← addressOf array index
  let element ← load address 0
  append (.copy result element)
  place done
  return result

end ThreeAddress.Lowering

namespace ThreeAddress.Checked

open Lowering

mutual

/-- Lowers an expression and returns the temporary that holds its value. -/
def Expr.lower (env : Env) : Expr → Lower Code.Temp
  | .mk kind _ lvalue span =>
    match kind with
    | .literal l => literal l
    | .null => constant 0
    | .this => env.findReceiver span
    | .readInteger => do
      let result ← callRoutine .readInt
      demand result span
    | .readLine => do
      let result ← callRoutine .readLine
      demand result span
    | .ident owner symbol =>
      match lvalue with
      | .memberVar => do
        let object ← Expr.lowerOwner env span owner
        let member ← env.findVar symbol span
        load object member.offset
      | .localVar | .paramVar | .notLValue => env.findTemp symbol span
      | .arrayElement => reject (.invalidLValue lvalue) span
    | .indexed array index => do
      let a ← array.lower env
      let i ← index.lower env
      let address ← checkedAddress a i
      load address 0
    | .call c => do
      let result ← c.lower env span
      demand result span
    | .arrayLength array => do
      let a ← array.lower env
      loadLength a
    | .binary op left right => do
      let l ← left.lower env
      let r ← right.lower env
      applyOp op left.type right.type l r span
    | .unary op operand => do
      let t ← operand.lower env
      compute (.unary · op t)
    | .newClass c => do
      let symbol ← env.findClass c span
      let result ← call (.call · symbol.allocator) (.object c)
      demand result span
    | .newArray _ length => do
      let n ← length.lower env
      compute (.newArray · n)
    | .instanceOf object c => do
      let t ← object.lower env
      let symbol ← env.findClass c span
      compute (.instanceOf · t symbol.vtable)
    | .cast object c => do
      let t ← object.lower env
      let symbol ← env.findClass c span
      if !env.symbols.assignable object.type (.object c) then append (.checkClass t symbol.vtable)
      return t
    | .shallowCopy source =>
      match source.type.class? with
      | some c => do
        let t ← source.lower env
        cloneObject env t c source.span
      | none => reject (.expectedClass source.type) source.span
    | .newSameArray element count => do
      let t ← element.lower env
      let n ← count.lower env
      fillArray env t n element.type element.span
    | .defaultIndex array index fallback => do
      let a ← array.lower env
      let i ← index.lower env
      let d ← fallback.lower env
      readOr a i d
    | .varBinding symbol => declare symbol

/-- The object that a member belongs to, the receiver where none is named. -/
def Expr.lowerOwner (env : Env) (span : Span) : Option Expr → Lower Code.Temp
  | some owner => owner.lower env
  | none => env.findReceiver span

/-- Lowers a call. All operands are evaluated before the first of them is passed. -/
def Call.lower (env : Env) (span : Span) : Call → Lower (Option Code.Temp)
  | .mk receiver method args => do
    let symbol ← env.findMethod method span
    let r ← Expr.lowerOption env receiver
    let ts ← Expr.lowerAll env args
    callMethod symbol r ts

def Expr.lowerOption (env : Env) : Option Expr → Lower (Option Code.Temp)
  | some e => do
    let t ← e.lower env
    return some t
  | none => return none

def Expr.lowerAll (env : Env) : List Expr → Lower (List Code.Temp)
  | [] => return []
  | e :: es => do
    let t ← e.lower env
    let ts ← Expr.lowerAll env es
    return t :: ts

end

end ThreeAddress.Checked
