import ThreeAddress.Checked.Basic

namespace ThreeAddress.Code

open Checked (BinaryOp UnaryOp)

/-- A virtual register. -/
structure Temp where
  index : Nat
deriving DecidableEq, Inhabited

def Temp.text (t : Temp) : String :=
  "%" ++ toString t.index

/-- A position in a function, named by a stem and a number. -/
structure Label where
  stem : String
  number : Nat
deriving DecidableEq, Inhabited

def Label.text (l : Label) : String :=
  l.stem ++ "_" ++ toString l.number

/-- A broken promise of the code generator itself, or an offset that has no text. -/
inductive Fault where
  | negation
  | placedTwice (l : Label)
  | wrongArity (callee : String) (declared pending : Nat)
deriving DecidableEq

def Fault.message : Fault → String
  | .negation => "attempt to negate with overflow"
  | .placedTwice l => "label " ++ l.text ++ " marked twice"
  | .wrongArity callee declared pending =>
    "assertion `left == right` failed: wrong number of parameters passed to " ++ callee ++
      "\n  left: " ++ toString declared ++ "\n right: " ++ toString pending

/-- The size of a machine word in bytes. Every value, reference and array element takes one. -/
def wordSize : Int32 := 4

/-- An instruction. Where it produces a value, the destination comes first. -/
inductive Instr where
  | copy (dst src : Temp)
  | binary (dst : Temp) (op : BinaryOp) (left right : Temp)
  | unary (dst : Temp) (op : UnaryOp) (src : Temp)
  | constant (dst : Temp) (value : Int32)
  | string (dst : Temp) (value : String)
  | vtable (dst : Temp) (name : String)
  | load (dst base : Temp) (offset : Int32)
  | store (src base : Temp) (offset : Int32)
  | param (value : Temp)
  | call (dst : Option Temp) (callee : String)
  | callTemp (dst : Option Temp) (callee : Temp)
  | jump (target : Label)
  | jumpIfZero (value : Temp) (target : Label)
  | label (l : Label)
  | ret (value : Option Temp)
  | newArray (dst length : Temp)
  | instanceOf (dst object : Temp) (vtable : String)
  | checkClass (object : Temp) (vtable : String)
  | checkBounds (array index : Temp)
deriving DecidableEq

/-- The word at an offset from a base. A negative offset is shown as a subtraction; the smallest
32-bit integer has no opposite that could be subtracted. -/
def address (base : Temp) (offset : Int32) : Except Fault String :=
  if offset.toInt < 0 then
    if offset = Int32.minValue then .error .negation
    else .ok ("*(" ++ base.text ++ " - " ++ toString (-offset.toInt) ++ ")")
  else .ok ("*(" ++ base.text ++ " + " ++ toString offset.toInt ++ ")")

def resultText : Option Temp → String
  | some dst => dst.text ++ " = "
  | none => ""

def Instr.text : Instr → Except Fault String
  | .copy dst src => .ok (dst.text ++ " = " ++ src.text)
  | .binary dst op left right =>
    .ok (dst.text ++ " = " ++ left.text ++ " " ++ op.text ++ " " ++ right.text)
  | .unary dst op src => .ok (dst.text ++ " = " ++ op.text ++ " " ++ src.text)
  | .constant dst value => .ok (dst.text ++ " = " ++ toString value.toInt)
  | .string dst value => .ok (dst.text ++ " = " ++ Text.quoted value)
  | .vtable dst name => .ok (dst.text ++ " = VTBL <" ++ name ++ ">")
  | .load dst base offset => do
    let a ← address base offset
    .ok (dst.text ++ " = " ++ a)
  | .store src base offset => do
    let a ← address base offset
    .ok (a ++ " = " ++ src.text)
  | .param value => .ok ("param " ++ value.text)
  | .call dst callee => .ok (resultText dst ++ "call " ++ callee)
  | .callTemp dst callee => .ok (resultText dst ++ "call " ++ callee.text)
  | .jump target => .ok ("goto " ++ target.text)
  | .jumpIfZero value target => .ok ("if_false " ++ value.text ++ " goto " ++ target.text)
  | .label l => .ok (l.text ++ ":")
  | .ret none => .ok "return"
  | .ret (some value) => .ok ("return " ++ value.text)
  | .newArray dst length => .ok (dst.text ++ " = new_array " ++ length.text)
  | .instanceOf dst object table =>
    .ok (dst.text ++ " = instanceof " ++ object.text ++ ", " ++ table)
  | .checkClass object table => .ok ("class_cast " ++ object.text ++ ", " ++ table)
  | .checkBounds array index => .ok ("check_index " ++ array.text ++ ", " ++ index.text)

end ThreeAddress.Code
