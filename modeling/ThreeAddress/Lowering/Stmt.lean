import ThreeAddress.Lowering.Expr

namespace ThreeAddress.Lowering

open Checked Code

/-- The temporaries and labels of a loop over an array, up to the fetch of an element. -/
structure ArrayLoop where
  element : Temp
  word : Temp
  one : Temp
  cursor : Temp
  length : Temp
  index : Temp
  more : Temp
  nextIndex : Temp
  current : Temp
  again : Label
  leave : Label
deriving DecidableEq

/-- Starts a loop over an array. Behind it, `element` holds the element of the round. -/
def openEach (element array : Temp) : Lower ArrayLoop := do
  let again ← freshLabel "loop"
  let leave ← freshLabel "loop_exit"
  let word ← constant wordSize
  let one ← constant 1
  let cursor ← freshTemp
  append (.copy cursor array)
  let length ← loadLength array
  let index ← constant 0
  place again
  let more ← operate .less index length
  let nextIndex ← operate .add index one
  append (.copy index nextIndex)
  append (.jumpIfZero more leave)
  let current ← load cursor 0
  append (.copy element current)
  return { element, word, one, cursor, length, index, more, nextIndex, current, again, leave }

def ArrayLoop.advance (loop : ArrayLoop) : Lower Temp := do
  let next ← operate .add loop.cursor loop.word
  append (.copy loop.cursor next)
  return next

end ThreeAddress.Lowering

namespace ThreeAddress.Checked

open Code Lowering

/-- Evaluates an expression for its effects. Only here may a call return nothing. -/
def Expr.lowerEffects (env : Env) (e : Expr) : Lower Unit :=
  match e.kind with
  | .call c => do
    let _ ← c.lower env e.span
  | _ => do
    let _ ← e.lower env

def Expr.lowerTarget (env : Env) (target : Expr) (t : Temp) : Lower Unit :=
  match target.lvalue, target.kind with
  | .arrayElement, .indexed array index => do
    let a ← array.lower env
    let i ← index.lower env
    let address ← checkedAddress a i
    append (.store t address 0)
  | .memberVar, .ident owner symbol => do
    let object ← Expr.lowerOwner env target.span owner
    let member ← env.findVar symbol target.span
    append (.store t object member.offset)
  | .localVar, .ident _ symbol | .paramVar, .ident _ symbol => do
    let place ← env.findTemp symbol target.span
    append (.copy place t)
  | .localVar, .varBinding symbol => do
    let place ← declare symbol
    append (.copy place t)
  | kind, _ => reject (.invalidLValue kind) target.span

def Expr.lowerPrint (env : Env) (e : Expr) : Lower Unit := do
  let t ← e.lower env
  match Routine.printer? e.type with
  | none => reject (.unprintable e.type) e.span
  | some r =>
    pass t
    let _ ← callRoutine r

def Expr.lowerGuard (env : Env) (exit : Label) : Option Expr → Lower Unit
  | none => return
  | some guard => do
    let t ← guard.lower env
    append (.jumpIfZero t exit)

mutual

def Stmt.lower (env : Env) (exit : Option Label) : Stmt → Lower Unit
  | .mk kind span =>
    match kind with
    | .varDef symbol => do
      let _ ← declare symbol
    | .block statements => Stmt.lowerAll env exit statements
    | .exec e => e.lowerEffects env
    | .assign target source => do
      let t ← source.lower env
      target.lowerTarget env t
    | .cond condition thenBranch (some elseBranch) => do
      let t ← condition.lower env
      let done ← freshLabel "if_end"
      let otherwise ← freshLabel "else"
      append (.jumpIfZero t otherwise)
      thenBranch.lower env exit
      append (.jump done)
      place otherwise
      elseBranch.lower env exit
      place done
    | .cond condition thenBranch none => do
      let t ← condition.lower env
      let done ← freshLabel "if_end"
      append (.jumpIfZero t done)
      thenBranch.lower env exit
      place done
    | .whileLoop condition body => do
      let again ← freshLabel "loop"
      place again
      let t ← condition.lower env
      let leave ← freshLabel "loop_exit"
      append (.jumpIfZero t leave)
      body.lower env (some leave)
      closeLoop again leave
    | .forLoop init condition update body => do
      Stmt.lowerOption env exit init
      let test ← freshLabel "for_cond"
      let again ← freshLabel "loop"
      append (.jump test)
      place again
      Stmt.lowerOption env exit update
      place test
      let t ← condition.lower env
      let leave ← freshLabel "loop_exit"
      append (.jumpIfZero t leave)
      body.lower env (some leave)
      closeLoop again leave
    | .forEach binding array guard body => do
      let element ← declare binding
      let a ← array.lower env
      let loop ← openEach element a
      Expr.lowerGuard env loop.leave guard
      let _ ← loop.advance
      body.lower env (some loop.leave)
      closeLoop loop.again loop.leave
    | .ret e => do
      let t ← Expr.lowerOption env e
      append (.ret t)
    | .leave =>
      match exit with
      | some l => append (.jump l)
      | none => reject .breakOutsideLoop span
    | .print args => args.forM (·.lowerPrint env)
    | .guarded alternatives last => do
      Branch.lowerAll env exit alternatives
      last.lower env exit "guard_end"

def Stmt.lowerOption (env : Env) (exit : Option Label) : Option Stmt → Lower Unit
  | none => return
  | some s => s.lower env exit

def Stmt.lowerAll (env : Env) (exit : Option Label) : List Stmt → Lower Unit
  | [] => return
  | s :: rest => do
    s.lower env exit
    Stmt.lowerAll env exit rest

/-- Runs a body where its guard holds, and goes on at a label with the given stem in either case. -/
def Branch.lower (env : Env) (exit : Option Label) (stem : String) : Branch → Lower Unit
  | .mk guard body => do
    let t ← guard.lower env
    let skip ← freshLabel stem
    append (.jumpIfZero t skip)
    body.lower env exit
    place skip

/-- Every alternative whose guard holds is run. -/
def Branch.lowerAll (env : Env) (exit : Option Label) : List Branch → Lower Unit
  | [] => return
  | b :: rest => do
    b.lower env exit "guard_skip"
    Branch.lowerAll env exit rest

end

end ThreeAddress.Checked
