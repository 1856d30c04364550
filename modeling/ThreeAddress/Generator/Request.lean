import ThreeAddress.Generator.Basic

namespace ThreeAddress.Generator

open Checked (BinaryOp DataType UnaryOp)
open Code

inductive Request where
  | freshTemp
  | freshLabel (stem : String)
  | openFunction (name : String) (params : List Temp)
  | closeFunction
  | copy (dst src : Temp)
  | binary (op : BinaryOp) (left right : Temp)
  | unary (op : UnaryOp) (src : Temp)
  | constant (value : Int32)
  | string (value : String)
  | vtable (name : String)
  | load (base : Temp) (offset : Int32)
  | store (src base : Temp) (offset : Int32)
  | pass (value : Temp)
  | call (callee : String) (type : DataType)
  | callTemp (callee : Temp) (type : DataType)
  | callRoutine (r : Routine)
  | jump (target : Label)
  | jumpIfZero (value : Temp) (target : Label)
  | place (l : Label)
  | ret (value : Option Temp)
  | newArray (length : Temp)
  | instanceOf (object : Temp) (vtable : String)
  | checkClass (object : Temp) (vtable : String)
  | checkBounds (array index : Temp)
deriving DecidableEq

inductive Reply where
  | nothing
  | temp (t : Temp)
  | label (l : Label)
  | function (f : Function)
deriving DecidableEq

def Reply.ofTemp? : Option Temp → Reply
  | some t => .temp t
  | none => .nothing

def execute (g : Generator) (i : Instr) : Reply × Generator :=
  (.nothing, g.append i)

def produce (g : Generator) (instr : Temp → Instr) : Reply × Generator :=
  let (t, g) := g.compute instr
  (.temp t, g)

def perform (g : Generator) : Request → Except Fault (Reply × Generator)
  | .freshTemp =>
    let (t, g) := g.freshTemp
    .ok (.temp t, g)
  | .freshLabel stem =>
    let (l, g) := g.freshLabel stem
    .ok (.label l, g)
  | .openFunction name params => .ok (.nothing, g.openFunction name params)
  | .closeFunction =>
    let (f, g) := g.closeFunction
    .ok (.function f, g)
  | .copy dst src => .ok (g.execute (.copy dst src))
  | .binary op left right => .ok (g.produce (.binary · op left right))
  | .unary op src => .ok (g.produce (.unary · op src))
  | .constant value => .ok (g.produce (.constant · value))
  | .string value => .ok (g.produce (.string · value))
  | .vtable name => .ok (g.produce (.vtable · name))
  | .load base offset => .ok (g.produce (.load · base offset))
  | .store src base offset => .ok (g.execute (.store src base offset))
  | .pass value => .ok (.nothing, g.pass value)
  | .call callee type =>
    let (t, g) := g.call (.call · callee) type
    .ok (.ofTemp? t, g)
  | .callTemp callee type =>
    let (t, g) := g.call (.callTemp · callee) type
    .ok (.ofTemp? t, g)
  | .callRoutine r => do
    let (t, g) ← g.callRoutine r
    .ok (.ofTemp? t, g)
  | .jump target => .ok (g.execute (.jump target))
  | .jumpIfZero value target => .ok (g.execute (.jumpIfZero value target))
  | .place l => do
    let g ← g.place l
    .ok (.nothing, g)
  | .ret value => .ok (g.execute (.ret value))
  | .newArray length => .ok (g.produce (.newArray · length))
  | .instanceOf object vtable => .ok (g.produce (.instanceOf · object vtable))
  | .checkClass object vtable => .ok (g.execute (.checkClass object vtable))
  | .checkBounds array index => .ok (g.execute (.checkBounds array index))

/-- A reply as it is shown: a function comes with its lines. -/
inductive Shown where
  | nothing
  | temp (t : Temp)
  | label (l : Label)
  | function (f : Function) (lines : List String)

def Reply.shown : Reply → Except Fault Shown
  | .nothing => .ok .nothing
  | .temp t => .ok (.temp t)
  | .label l => .ok (.label l)
  | .function f => do
    let lines ← f.body.toList.mapM Instr.text
    .ok (.function f lines)

def Reply.function? : Reply → Option Function
  | .function f => some f
  | _ => none

/-- What a run shows: one answer per request, the last of them possibly a fault, and the functions
that were handed over. -/
structure Transcript where
  answers : List (Except Fault Shown) := []
  functions : List Function := []

/-- Carries out requests in order up to the first fault. -/
def transcript (g : Generator) : List Request → Transcript
  | [] => {}
  | request :: rest =>
    match g.perform request with
    | .error fault => { answers := [.error fault] }
    | .ok (reply, g) =>
      match reply.shown with
      | .error fault => { answers := [.error fault] }
      | .ok shown =>
        let later := g.transcript rest
        { answers := .ok shown :: later.answers
          functions := reply.function?.toList ++ later.functions }

end ThreeAddress.Generator
