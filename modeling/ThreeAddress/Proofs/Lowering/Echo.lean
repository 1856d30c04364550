import ThreeAddress.Lowering.Program
import ThreeAddress.Proofs.Checked.Bare
import ThreeAddress.Proofs.Lowering.Mechanical

namespace ThreeAddress.Lowering

open Checked Code

/-- What a defect is about, without the name of a variable. -/
def DefectKind.bare : DefectKind → DefectKind
  | .unboundVariable _ => .unboundVariable ""
  | kind => kind

def Defect.bare (d : Defect) : Defect := ⟨d.kind.bare, {}⟩

def Failure.bare : Failure → Failure
  | .defect d => .defect d.bare
  | .fault f => .fault f

def Env.bare (env : Env) : Env := { env with symbols := env.symbols.bare }

def State.logged (s : State) (log : List Event) : State :=
  { s with generator := { s.generator with log } }

/-- The second action does what the first does, whatever is in the logs. What it returns is the
result of the first under `r`. -/
def Echoes {α β : Type} (r : α → β) (x : Lower α) (y : Lower β) : Prop :=
  ∀ s log, ∃ log', y (s.logged log) = match x s with
    | .ok a s' => .ok (r a) (s'.logged log')
    | .error e s' => .error e.bare (s'.logged log')

namespace Echoes

variable {α β γ δ : Type} {r : α → β} {q : γ → δ} {x : Lower α} {y : Lower β} {env : Env}
variable {span : Span}

theorem bind {f : α → Lower γ} {g : β → Lower δ} (hx : Echoes r x y)
    (hf : ∀ a, Echoes q (f a) (g (r a))) : Echoes q (x >>= f) (y >>= g) := by
  intro s log
  obtain ⟨log₁, hy⟩ := hx s log
  cases hxs : x s with
  | ok a s₁ =>
    rw [hxs] at hy
    rw [bind_of_ok hxs, bind_of_ok hy]
    exact hf a s₁ log₁
  | error e s₁ =>
    rw [hxs] at hy
    rw [bind_of_error hxs, bind_of_error hy]
    exact ⟨log₁, rfl⟩

theorem pure (a : α) : Echoes r (pure a) (pure (r a)) := fun _ log ↦ ⟨log, rfl⟩

theorem reject (kind : DefectKind) (span : Span) :
    Echoes r (reject kind span) (reject kind.bare {}) := fun _ log ↦ ⟨log, rfl⟩

theorem lookUp (r : α → β) (found : Option α) (kind : DefectKind) (span : Span) :
    Echoes r (lookUp found kind span) (lookUp (found.map r) kind.bare {}) := by
  cases found with
  | none => exact reject kind span
  | some a => exact pure a

theorem step {f : Generator → α × Generator} {f' : Generator → β × Generator}
    (h : ∀ g log, ∃ log', f' { g with log } = (r (f g).1, { (f g).2 with log := log' })) :
    Echoes r (step f) (step f') := by
  intro s log
  obtain ⟨log', hg⟩ := h s.generator log
  have hstep : Lowering.step f' (s.logged log) =
      .ok (f' { s.generator with log }).1
        { s with generator := (f' { s.generator with log }).2 } := rfl
  refine ⟨log', ?_⟩
  rw [hstep, hg]
  rfl

theorem attempt {f : Generator → Except Fault (α × Generator)}
    (h : ∀ g log, (∃ fault, f g = .error fault ∧ f { g with log } = .error fault) ∨
      ∃ a g' log', f g = .ok (a, g') ∧ f { g with log } = .ok (a, { g' with log := log' })) :
    Echoes id (attempt f) (attempt f) := by
  intro s log
  rcases h s.generator log with ⟨fault, hs, ht⟩ | ⟨a, g', log', hs, ht⟩
  · have ht' : f (s.logged log).generator = .error fault := ht
    rw [attempt_of_error hs, attempt_of_error ht']
    exact ⟨log, rfl⟩
  · have ht' : f (s.logged log).generator = .ok (a, { g' with log := log' }) := ht
    rw [attempt_of_ok hs, attempt_of_ok ht']
    exact ⟨log', rfl⟩

theorem freshTemp : Echoes id freshTemp freshTemp := step fun _ log ↦ ⟨log, rfl⟩

theorem freshLabel (stem : String) : Echoes id (freshLabel stem) (freshLabel stem) :=
  step fun _ _ ↦ ⟨_, rfl⟩

theorem append (i : Instr) : Echoes id (append i) (append i) := step fun _ _ ↦ ⟨_, rfl⟩

theorem compute (instr : Temp → Instr) : Echoes id (compute instr) (compute instr) :=
  step fun _ _ ↦ ⟨_, rfl⟩

theorem pass (t : Temp) : Echoes id (pass t) (pass t) := step fun _ _ ↦ ⟨_, rfl⟩

theorem call_log (g : Generator) (log : List Event) (instr : Option Temp → Instr)
    (type : DataType) :
    ∃ log', Generator.call { g with log } instr type =
      ((g.call instr type).1, { (g.call instr type).2 with log := log' }) := by
  unfold Generator.call Generator.resultTemp
  by_cases h : type.isVoid
  · simp only [if_pos h]
    exact ⟨_, rfl⟩
  · simp only [if_neg h]
    exact ⟨_, rfl⟩

/-- Of the type of a call it matters whether there is a value. -/
theorem call (instr : Option Temp → Instr) {type type' : DataType}
    (h : type'.isVoid = type.isVoid) : Echoes id (call instr type) (call instr type') := by
  have hcall (g : Generator) : g.call instr type' = g.call instr type := by
    unfold Generator.call Generator.resultTemp
    rw [h]
  refine step fun g log ↦ ?_
  obtain ⟨log', hlog⟩ := call_log g log instr type
  exact ⟨log', (hcall _).trans hlog⟩

theorem callRoutine (routine : Routine) :
    Echoes id (callRoutine routine) (callRoutine routine) := by
  refine attempt fun g log ↦ ?_
  by_cases hp : g.pending = routine.arity
  · obtain ⟨log', hlog⟩ := call_log g log (.call · routine.name) routine.result
    refine .inr ⟨(g.call (.call · routine.name) routine.result).1,
      (g.call (.call · routine.name) routine.result).2, log', if_pos hp, ?_⟩
    rw [← hlog]
    exact if_pos hp
  · exact .inl ⟨_, if_neg hp, if_neg hp⟩

theorem place (l : Label) : Echoes id (place l) (place l) := by
  refine attempt fun g log ↦ ?_
  unfold Generator.place
  by_cases hp : l ∈ g.placed
  · rw [if_pos hp, if_pos hp]
    exact .inl ⟨_, rfl, rfl⟩
  · rw [if_neg hp, if_neg hp]
    exact .inr ⟨_, _, _, rfl, rfl⟩

theorem of_mechanical {x : Lower α} (h : Mechanical x) : Echoes id x x := by
  induction h with
  | pure a => exact pure a
  | bind _ _ ihx ihf => exact Echoes.bind (r := id) ihx ihf
  | freshTemp => exact freshTemp
  | freshLabel stem => exact freshLabel stem
  | append _ => exact append _
  | pass t => exact pass t
  | callRoutine routine => exact callRoutine routine
  | place l => exact place l

theorem declare (v : VarId) : Echoes id (declare v) (declare v) :=
  freshTemp.bind fun t ↦ Echoes.bind (r := id)
    (x := modify fun s : State ↦ { s with bound := (v, t) :: s.bound })
    (fun _ log ↦ ⟨log, rfl⟩) fun _ ↦ pure t

theorem findTemp (v : VarId) : Echoes id (env.findTemp v span) (env.bare.findTemp v {}) := by
  intro s log
  cases hf : s.bound.lookup v with
  | some u =>
    have hf' : (s.logged log).bound.lookup v = some u := hf
    rw [Env.findTemp_of_some hf, Env.findTemp_of_some hf']
    exact ⟨log, rfl⟩
  | none =>
    have hf' : (s.logged log).bound.lookup v = none := hf
    rw [Env.findTemp_of_none hf, Env.findTemp_of_none hf', Env.findVar_eq, Env.findVar_eq,
      Env.bare, SymbolTable.var?_bare]
    exact (lookUp VariableSymbol.bare _ (.unknownVariable v) span).bind
      (fun symbol ↦ reject (.unboundVariable symbol.name) span) s log

theorem forM {ι : Type} {f g : ι → Lower Unit} (h : ∀ i, Echoes id (f i) (g i)) (is : List ι) :
    Echoes id (is.forM f) (is.forM g) := by
  induction is with
  | nil => exact pure ()
  | cons i is ih => exact (h i).bind fun _ ↦ ih

theorem demand (result : Option Temp) : Echoes id (demand result span) (demand result {}) := by
  have h := lookUp id result .voidValue span
  rw [Option.map_id] at h
  rw [demand_eq, demand_eq]
  exact h

theorem constant (n : Int32) : Echoes id (constant n) (constant n) := compute _

theorem operate (op : BinaryOp) (left right : Temp) :
    Echoes id (operate op left right) (operate op left right) := compute _

theorem load (base : Temp) (offset : Int32) : Echoes id (load base offset) (load base offset) :=
  compute _

theorem compareStrings (op : BinaryOp) (left right : Temp) :
    Echoes id (compareStrings op left right span) (compareStrings op left right {}) := by
  refine (pass left).bind fun _ ↦ (pass right).bind fun _ ↦ (callRoutine _).bind fun result ↦
    (demand result).bind fun equal ↦ ?_
  split
  · exact compute _
  · exact pure equal

/-- The types of the operands count where strings are compared in another way than numbers. -/
theorem applyOp (op : BinaryOp) {leftType rightType leftType' rightType' : DataType}
    (hleft : op.comparesStrings → leftType' = leftType)
    (hright : op.comparesStrings → rightType' = rightType) (left right : Temp) :
    Echoes id (applyOp op leftType rightType left right span)
      (applyOp op leftType' rightType' left right {}) := by
  cases op with
  | divide | modulo =>
    exact (of_mechanical (.guardDivisor right)).bind fun _ ↦ operate _ left right
  | equal | notEqual =>
    rw [hleft rfl, hright rfl]
    show Echoes id (if _ then _ else _) (if _ then _ else _)
    split
    · exact compareStrings _ left right
    · exact operate _ left right
  | _ => exact operate _ left right

theorem callMethod (method : MethodSymbol) (receiver : Option Temp) (args : List Temp) :
    Echoes id (callMethod method receiver args) (callMethod method.bare receiver args) := by
  refine (forM pass _).bind fun _ ↦ ?_
  cases receiver with
  | none => exact call _ method.isVoid_bare
  | some receiver =>
    exact (load receiver 0).bind fun vtable ↦ (load vtable _).bind fun callee ↦
      call _ method.isVoid_bare

theorem copyField (object clone : Temp) (offset : Int32) :
    Echoes id (copyField object clone offset) (copyField object clone offset) :=
  (load object offset).bind fun _ ↦ append _

theorem findClass (c : ClassId) :
    Echoes ClassSymbol.bare (env.findClass c span) (env.bare.findClass c {}) := by
  rw [Env.findClass_eq, Env.findClass_eq, Env.bare, SymbolTable.class?_bare]
  exact lookUp _ _ (.unknownClass c) span

theorem findMethod (m : MethodId) :
    Echoes MethodSymbol.bare (env.findMethod m span) (env.bare.findMethod m {}) := by
  rw [Env.findMethod_eq, Env.findMethod_eq, Env.bare, SymbolTable.method?_bare]
  exact lookUp _ _ (.unknownMethod m) span

theorem findVar (v : VarId) :
    Echoes VariableSymbol.bare (env.findVar v span) (env.bare.findVar v {}) := by
  rw [Env.findVar_eq, Env.findVar_eq, Env.bare, SymbolTable.var?_bare]
  exact lookUp _ _ (.unknownVariable v) span

theorem findReceiver : Echoes id (env.findReceiver span) (env.bare.findReceiver {}) := by
  have h := lookUp id env.receiver .missingReceiver span
  rw [Option.map_id] at h
  rw [Env.findReceiver_eq, Env.findReceiver_eq]
  exact h

theorem cloneObject (object : Temp) (c : ClassId) :
    Echoes id (cloneObject env object c span) (cloneObject env.bare object c {}) :=
  (findClass c).bind fun _ ↦ (constant _).bind fun size ↦ (pass size).bind fun _ ↦
    (callRoutine _).bind fun result ↦ (demand result).bind fun clone ↦
    (forM (copyField object clone) _).bind fun _ ↦ (compute _).bind fun _ ↦
    (append _).bind fun _ ↦ pure clone

theorem cloneIfObject (t : Temp) (type : DataType) :
    Echoes id (cloneIfObject env t type span) (cloneIfObject env.bare t type {}) := by
  unfold Lowering.cloneIfObject
  split
  · exact cloneObject t _
  · exact pure t

theorem fillArray (element count : Temp) (type : DataType) :
    Echoes id (fillArray env element count type span) (fillArray env.bare element count type {}) :=
  (of_mechanical (.openFill count)).bind fun loop ↦ (cloneIfObject element type).bind fun stored ↦
    (of_mechanical (.storeElement loop stored)).bind fun _ ↦ pure loop.array

end Echoes

end ThreeAddress.Lowering

namespace ThreeAddress.Checked

open Code Lowering

variable {env : Env}

theorem Expr.type_bare (e : Expr) : (e.bare true).type = e.type := by
  cases e
  rfl

theorem Expr.span_bare (typed : Bool) (e : Expr) : (e.bare typed).span = {} := by
  cases e
  rfl

theorem Expr.type_operand {op : BinaryOp} (e : Expr) (h : op.comparesStrings) :
    (e.bare op.comparesStrings).type = e.type := by
  rw [h, e.type_bare]

mutual

theorem Expr.echo (typed : Bool) : (e : Expr) →
    Echoes id (e.lower env) ((e.bare typed).lower env.bare)
  | .mk (.literal l) _ _ _ => .of_mechanical (.literal l)
  | .mk .null _ _ _ => .constant 0
  | .mk .this _ _ _ => .findReceiver
  | .mk .readInteger _ _ _ => (Echoes.callRoutine _).bind .demand
  | .mk .readLine _ _ _ => (Echoes.callRoutine _).bind .demand
  | .mk (.ident owner symbol) _ .memberVar span =>
    (Expr.echoOwner span owner).bind fun object ↦ (Echoes.findVar symbol).bind fun _ ↦
      .load object _
  | .mk (.ident _ symbol) _ .localVar _ => .findTemp symbol
  | .mk (.ident _ symbol) _ .paramVar _ => .findTemp symbol
  | .mk (.ident _ symbol) _ .notLValue _ => .findTemp symbol
  | .mk (.ident _ _) _ .arrayElement span => .reject (.invalidLValue .arrayElement) span
  | .mk (.indexed array index) _ _ _ =>
    (array.echo false).bind fun a ↦ (index.echo false).bind fun i ↦
      (Echoes.of_mechanical (.checkedAddress a i)).bind fun address ↦ .load address 0
  | .mk (.call c) _ _ span => (c.echo span).bind .demand
  | .mk (.arrayLength array) _ _ _ => (array.echo false).bind fun a ↦ .load a _
  | .mk (.binary op left right) _ _ _ =>
    (left.echo _).bind fun l ↦ (right.echo _).bind fun r ↦
      .applyOp op left.type_operand right.type_operand l r
  | .mk (.unary _ operand) _ _ _ => (operand.echo false).bind fun _ ↦ .compute _
  | .mk (.newClass c) _ _ _ =>
    (Echoes.findClass c).bind fun _ ↦ (Echoes.call _ rfl).bind .demand
  | .mk (.newArray _ length) _ _ _ => (length.echo false).bind fun _ ↦ .compute _
  | .mk (.instanceOf object c) _ _ _ =>
    (object.echo false).bind fun _ ↦ (Echoes.findClass c).bind fun _ ↦ .compute _
  | .mk (.cast object c) _ _ _ => by
    refine (object.echo true).bind fun t ↦ (Echoes.findClass c).bind fun _ ↦ ?_
    rw [object.type_bare, Env.bare, SymbolTable.assignable_bare]
    split
    · exact (Echoes.append _).bind fun _ ↦ .pure t
    · exact .pure t
  | .mk (.shallowCopy source) _ _ _ => by
    rw [Expr.bare, ExprKind.bare, Expr.lower, Expr.lower, source.type_bare, source.span_bare]
    split
    · exact (source.echo true).bind fun t ↦ .cloneObject t _
    · exact .reject (.expectedClass source.type) _
  | .mk (.newSameArray element count) _ _ _ => by
    rw [Expr.bare, ExprKind.bare, Expr.lower, Expr.lower, element.type_bare, element.span_bare]
    exact (element.echo true).bind fun t ↦ (count.echo false).bind fun n ↦ .fillArray t n _
  | .mk (.defaultIndex array index fallback) _ _ _ =>
    (array.echo false).bind fun a ↦ (index.echo false).bind fun i ↦
      (fallback.echo false).bind fun d ↦ .of_mechanical (.readOr a i d)
  | .mk (.varBinding symbol) _ _ _ => .declare symbol

theorem Expr.echoOwner (span : Span) : (owner : Option Expr) →
    Echoes id (Expr.lowerOwner env span owner)
      (Expr.lowerOwner env.bare {} (Checked.bareOption owner))
  | some owner => owner.echo false
  | none => .findReceiver

theorem Call.echo (span : Span) : (c : Call) →
    Echoes id (c.lower env span) (c.bare.lower env.bare {})
  | .mk receiver method args =>
    (Echoes.findMethod method).bind fun symbol ↦ (Expr.echoOption receiver).bind fun r ↦
      (Expr.echoAll args).bind fun ts ↦ .callMethod symbol r ts

theorem Expr.echoOption : (e : Option Expr) →
    Echoes id (Expr.lowerOption env e) (Expr.lowerOption env.bare (Checked.bareOption e))
  | some e => (e.echo false).bind fun t ↦ .pure (some t)
  | none => .pure none

theorem Expr.echoAll : (es : List Expr) →
    Echoes id (Expr.lowerAll env es) (Expr.lowerAll env.bare (Checked.bareAll es))
  | [] => .pure []
  | e :: es => (e.echo false).bind fun t ↦ (Expr.echoAll es).bind fun ts ↦ .pure (t :: ts)

end

theorem Expr.echoEffects (e : Expr) :
    Echoes id (e.lowerEffects env) ((e.bare false).lowerEffects env.bare) := by
  have hvalue : Echoes id (e.lower env >>= fun _ ↦ Pure.pure ())
      ((e.bare false).lower env.bare >>= fun _ ↦ Pure.pure ()) :=
    (e.echo false).bind fun _ ↦ .pure ()
  obtain ⟨kind, type, lvalue, span⟩ := e
  cases kind with
  | call c => exact (c.echo span).bind fun _ ↦ .pure ()
  | _ => exact hvalue

theorem Expr.echoTarget (target : Expr) (t : Temp) :
    Echoes id (target.lowerTarget env t) ((target.bare false).lowerTarget env.bare t) := by
  obtain ⟨kind, type, lvalue, span⟩ := target
  cases kind with
  | indexed array index =>
    cases lvalue with
    | arrayElement =>
      exact (array.echo false).bind fun a ↦ (index.echo false).bind fun i ↦
        (Echoes.of_mechanical (.checkedAddress a i)).bind fun _ ↦ .append _
    | _ => exact .reject (.invalidLValue _) span
  | ident owner symbol =>
    cases lvalue with
    | memberVar =>
      exact (Expr.echoOwner span owner).bind fun object ↦ (Echoes.findVar symbol).bind fun _ ↦
        .append _
    | localVar | paramVar => exact (Echoes.findTemp symbol).bind fun _ ↦ .append _
    | _ => exact .reject (.invalidLValue _) span
  | varBinding symbol =>
    cases lvalue with
    | localVar => exact (Echoes.declare symbol).bind fun _ ↦ .append _
    | _ => exact .reject (.invalidLValue _) span
  | _ => cases lvalue <;> exact .reject (.invalidLValue _) span

theorem Expr.echoPrint (e : Expr) :
    Echoes id (e.lowerPrint env) ((e.bare true).lowerPrint env.bare) := by
  unfold Expr.lowerPrint
  rw [e.type_bare, e.span_bare]
  refine (e.echo true).bind fun t ↦ ?_
  dsimp only [id]
  split
  · exact .reject (.unprintable e.type) _
  · exact (Echoes.pass t).bind fun _ ↦ (Echoes.callRoutine _).bind fun _ ↦ .pure ()

theorem Expr.echoGuard (exit : Label) (guard : Option Expr) :
    Echoes id (Expr.lowerGuard env exit guard)
      (Expr.lowerGuard env.bare exit (Checked.bareOption guard)) := by
  cases guard with
  | none => exact .pure ()
  | some guard => exact (guard.echo false).bind fun _ ↦ .append _

theorem Expr.echoPrintAll : (args : List Expr) →
    Echoes id (args.forM (·.lowerPrint env))
      ((args.map (Expr.bare true)).forM (·.lowerPrint env.bare))
  | [] => .pure ()
  | e :: es => e.echoPrint.bind fun _ ↦ Expr.echoPrintAll es

mutual

theorem Stmt.echo (exit : Option Label) : (stmt : Stmt) →
    Echoes id (stmt.lower env exit) (stmt.bare.lower env.bare exit)
  | .mk (.varDef v) _ => (Echoes.declare v).bind fun _ ↦ .pure ()
  | .mk (.block statements) _ => Stmt.echoAll exit statements
  | .mk (.exec e) _ => e.echoEffects
  | .mk (.assign target source) _ => (source.echo false).bind target.echoTarget
  | .mk (.cond condition thenBranch (some elseBranch)) _ =>
    (condition.echo false).bind fun _ ↦ (Echoes.freshLabel _).bind fun done ↦
      (Echoes.freshLabel _).bind fun otherwise ↦ (Echoes.append _).bind fun _ ↦
      (thenBranch.echo exit).bind fun _ ↦ (Echoes.append _).bind fun _ ↦
      (Echoes.place otherwise).bind fun _ ↦ (elseBranch.echo exit).bind fun _ ↦ .place done
  | .mk (.cond condition thenBranch none) _ =>
    (condition.echo false).bind fun _ ↦ (Echoes.freshLabel _).bind fun done ↦
      (Echoes.append _).bind fun _ ↦ (thenBranch.echo exit).bind fun _ ↦ .place done
  | .mk (.whileLoop condition body) _ =>
    (Echoes.freshLabel _).bind fun again ↦ (Echoes.place again).bind fun _ ↦
      (condition.echo false).bind fun _ ↦ (Echoes.freshLabel _).bind fun leave ↦
      (Echoes.append _).bind fun _ ↦ (body.echo (some leave)).bind fun _ ↦
      .of_mechanical (.closeLoop again leave)
  | .mk (.forLoop init condition update body) _ =>
    (Stmt.echoOption exit init).bind fun _ ↦ (Echoes.freshLabel _).bind fun test ↦
      (Echoes.freshLabel _).bind fun again ↦ (Echoes.append _).bind fun _ ↦
      (Echoes.place again).bind fun _ ↦ (Stmt.echoOption exit update).bind fun _ ↦
      (Echoes.place test).bind fun _ ↦ (condition.echo false).bind fun _ ↦
      (Echoes.freshLabel _).bind fun leave ↦ (Echoes.append _).bind fun _ ↦
      (body.echo (some leave)).bind fun _ ↦ .of_mechanical (.closeLoop again leave)
  | .mk (.forEach binding array guard body) _ =>
    (Echoes.declare binding).bind fun element ↦ (array.echo false).bind fun a ↦
      (Echoes.of_mechanical (.openEach element a)).bind fun loop ↦
      (Expr.echoGuard loop.leave guard).bind fun _ ↦
      (Echoes.of_mechanical (.advance loop)).bind fun _ ↦
      (body.echo (some loop.leave)).bind fun _ ↦ .of_mechanical (.closeLoop loop.again loop.leave)
  | .mk (.ret e) _ => (Expr.echoOption e).bind fun _ ↦ .append _
  | .mk .leave span => by
    cases exit with
    | none => exact .reject .breakOutsideLoop span
    | some l => exact .append _
  | .mk (.print args) _ => Expr.echoPrintAll args
  | .mk (.guarded alternatives last) _ =>
    (Branch.echoAll exit alternatives).bind fun _ ↦ last.echo exit _

theorem Stmt.echoOption (exit : Option Label) : (stmt : Option Stmt) →
    Echoes id (Stmt.lowerOption env exit stmt)
      (Stmt.lowerOption env.bare exit (Stmt.bareOption stmt))
  | none => .pure ()
  | some stmt => stmt.echo exit

theorem Stmt.echoAll (exit : Option Label) : (statements : List Stmt) →
    Echoes id (Stmt.lowerAll env exit statements)
      (Stmt.lowerAll env.bare exit (Stmt.bareAll statements))
  | [] => .pure ()
  | stmt :: rest => (stmt.echo exit).bind fun _ ↦ Stmt.echoAll exit rest

theorem Branch.echo (exit : Option Label) (stem : String) : (b : Branch) →
    Echoes id (b.lower env exit stem) (b.bare.lower env.bare exit stem)
  | .mk guard body =>
    (guard.echo false).bind fun _ ↦ (Echoes.freshLabel stem).bind fun skip ↦
      (Echoes.append _).bind fun _ ↦ (body.echo exit).bind fun _ ↦ .place skip

theorem Branch.echoAll (exit : Option Label) : (bs : List Branch) →
    Echoes id (Branch.lowerAll env exit bs) (Branch.lowerAll env.bare exit (Branch.bareAll bs))
  | [] => .pure ()
  | b :: rest => (b.echo exit _).bind fun _ ↦ Branch.echoAll exit rest

end

end ThreeAddress.Checked
