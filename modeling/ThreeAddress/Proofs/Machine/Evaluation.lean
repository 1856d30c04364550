import ThreeAddress.Lowering.Expr
import ThreeAddress.Proofs.Machine.Basic

namespace ThreeAddress.Machine

open Checked Code Lowering

inductive Stop where
  | halted
  | undefined

abbrev Eval (ι : Type) := EStateM Stop (World ι)

/-- The values that are known where an expression stands. -/
structure Scope where
  receiver : Option Word
  var : VarId → Option Word

namespace Eval

variable {ι : Type} (P : Platform ι)

def request (service : Service) (args : List Word) : Eval ι Word := fun w ↦
  match P.serve service args w with
  | .returned value w' => .ok value w'
  | .halted w' => .error .halted w'

def routine (r : Routine) (args : List Word) : Eval ι Word :=
  request P (.call r.name) args

def read (address : Word) : Eval ι Word := fun w ↦ .ok (w.heap address) w

def write (address value : Word) : Eval ι Unit := fun w ↦ .ok () (w.write address value)

def known {α : Type} : Option α → Eval ι α
  | some a => return a
  | none => throw .undefined

def checkRange (array index : Word) : Eval ι Unit := fun w ↦
  if InRange w array index then .ok () w else .error .halted (P.outOfRange w)

def elementAt (array index : Word) : Word := array + index * wordSize

/-- A divisor that is zero prints a message and halts. -/
def guardDivisor (b : Word) : Eval ι Unit := do
  if b = 0 then
    let _ ← routine P .printString [P.stringAt divisionMessage]
    let _ ← routine P .halt []

def divide (op : BinaryOp) (a b : Word) : Eval ι Word := do
  guardDivisor P b
  return binary op a b

def compareStrings (op : BinaryOp) (a b : Word) : Eval ι Word := do
  let equal ← routine P .stringEqual [a, b]
  return if op = .notEqual then unary .not equal else equal

def apply (op : BinaryOp) (leftType rightType : DataType) (a b : Word) : Eval ι Word :=
  match op with
  | .divide | .modulo => divide P op a b
  | .equal | .notEqual =>
    if leftType = .string ∨ rightType = .string then compareStrings P op a b
    else return binary op a b
  | _ => return binary op a b

/-- A method is called by its name or, with a receiver, through the table of the receiver. -/
def callMethod (method : MethodSymbol) (receiver : Option Word) (args : List Word) :
    Eval ι Word :=
  match receiver with
  | none => request P (.call method.label) args
  | some receiver => do
    let table ← read receiver
    let callee ← read (table + method.offset)
    request P (.callAt callee) (receiver :: args)

def clone (symbol : ClassSymbol) (object : Word) : Eval ι Word := do
  let result ← routine P .allocate [symbol.size]
  (fieldOffsets symbol.size).forM fun offset ↦ do
    let field ← read (object + offset)
    write (result + offset) field
  write result (P.tableAt symbol.vtable)
  return result

def cloneIfObject (symbols : SymbolTable) (type : DataType) (value : Word) : Eval ι Word :=
  match type.class? with
  | none => return value
  | some c => do
    let symbol ← known (symbols.class? c)
    clone P symbol value

/-- Stores a value in `count` elements from the index `k` on. -/
def fill (symbols : SymbolTable) (type : DataType) (value array : Word) (k : Nat) :
    Nat → Eval ι Unit
  | 0 => return
  | count + 1 => do
    let stored ← cloneIfObject P symbols type value
    write (elementAt array (.ofNat k)) stored
    fill symbols type value array (k + 1) count

def readOr (array index fallback : Word) : Eval ι Word := fun w ↦
  if InRange w array index then .ok (w.heap (elementAt array index)) w else .ok fallback w

end Eval

end ThreeAddress.Machine

namespace ThreeAddress.Checked

open Machine Machine.Eval Lowering

variable {ι : Type} (P : Platform ι) (symbols : SymbolTable) (scope : Scope)

mutual

def Expr.eval : Expr → Eval ι Word
  | .mk kind _ lvalue _ =>
    match kind with
    | .literal (.int n) => return n
    | .literal (.bool b) => return truth b
    | .literal (.string s) => return P.stringAt s
    | .null => return 0
    | .this => known scope.receiver
    | .readInteger => routine P .readInt []
    | .readLine => routine P .readLine []
    | .ident owner symbol =>
      match lvalue with
      | .memberVar => do
        let object ← Expr.evalOwner owner
        let member ← known (symbols.var? symbol)
        read (object + member.offset)
      | .localVar | .paramVar | .notLValue => known (scope.var symbol)
      | .arrayElement => throw .undefined
    | .indexed array index => do
      let a ← array.eval
      let i ← index.eval
      checkRange P a i
      read (elementAt a i)
    | .call c => c.eval
    | .arrayLength array => do
      let a ← array.eval
      read (a + lengthOffset)
    | .binary op left right => do
      let a ← left.eval
      let b ← right.eval
      apply P op left.type right.type a b
    | .unary op operand => do
      let a ← operand.eval
      return unary op a
    | .newClass c => do
      let symbol ← known (symbols.class? c)
      request P (.call symbol.allocator) []
    | .newArray _ length => do
      let n ← length.eval
      request P .newArray [n]
    | .instanceOf object c => do
      let a ← object.eval
      let symbol ← known (symbols.class? c)
      request P (.instanceOf symbol.vtable) [a]
    | .cast object c => do
      let a ← object.eval
      let symbol ← known (symbols.class? c)
      if !symbols.assignable object.type (.object c) then
        let _ ← request P (.checkClass symbol.vtable) [a]
      return a
    | .shallowCopy source => do
      let c ← known source.type.class?
      let a ← source.eval
      let symbol ← known (symbols.class? c)
      clone P symbol a
    | .newSameArray element count => do
      let a ← element.eval
      let n ← count.eval
      let array ← request P .newArray [n]
      fill P symbols element.type a array 0 n.toInt.toNat
      return array
    | .defaultIndex array index fallback => do
      let a ← array.eval
      let i ← index.eval
      let d ← fallback.eval
      readOr a i d
    | .varBinding _ => throw .undefined

def Expr.evalOwner : Option Expr → Eval ι Word
  | some owner => owner.eval
  | none => known scope.receiver

def Call.eval : Call → Eval ι Word
  | .mk receiver method args => do
    let symbol ← known (symbols.method? method)
    let r ← Expr.evalOption receiver
    let values ← Expr.evalAll args
    callMethod P symbol r values

def Expr.evalOption : Option Expr → Eval ι (Option Word)
  | some e => do
    let a ← e.eval
    return some a
  | none => return none

def Expr.evalAll : List Expr → Eval ι (List Word)
  | [] => return []
  | e :: es => do
    let a ← e.eval
    let rest ← Expr.evalAll es
    return a :: rest

end

end ThreeAddress.Checked
