import ThreeAddress.Proofs.Lowering.Calls

namespace ThreeAddress.Checked

open Code Lowering

mutual

/-- The update of a loop is lowered in front of its condition. -/
def Stmt.calls : Stmt → List (Happening CallSite)
  | .mk kind _ =>
    match kind with
    | .varDef v => [.declared v]
    | .leave => []
    | .block statements => Stmt.callsAll statements
    | .exec e => e.calls
    | .assign target source => source.calls ++ target.callsTarget
    | .cond condition thenBranch elseBranch =>
      condition.calls ++ (thenBranch.calls ++ Stmt.callsOption elseBranch)
    | .whileLoop condition body => condition.calls ++ body.calls
    | .forLoop init condition update body =>
      Stmt.callsOption init ++ (Stmt.callsOption update ++ (condition.calls ++ body.calls))
    | .forEach v array guard body =>
      .declared v :: (array.calls ++ (Expr.callsOption guard ++ body.calls))
    | .ret value => Expr.callsOption value
    | .print args => args.flatMap Expr.callsPrint
    | .guarded alternatives last => Branch.callsAll alternatives ++ last.calls

def Stmt.callsOption : Option Stmt → List (Happening CallSite)
  | none => []
  | some s => s.calls

def Stmt.callsAll : List Stmt → List (Happening CallSite)
  | [] => []
  | s :: rest => s.calls ++ Stmt.callsAll rest

def Branch.calls : Branch → List (Happening CallSite)
  | .mk guard body => guard.calls ++ body.calls

def Branch.callsAll : List Branch → List (Happening CallSite)
  | [] => []
  | b :: rest => b.calls ++ Branch.callsAll rest

end

variable {env : Env}

theorem Expr.handsOverEffects (e : Expr) : HandsOver env (e.lowerEffects env) e.calls := by
  obtain ⟨kind, type, lvalue, span⟩ := e
  cases kind with
  | call c => exact c.handsOver.andThen fun _ ↦ .pure ()
  | _ => exact (Expr.handsOver _).andThen fun _ ↦ .pure ()

theorem Expr.handsOverTarget (target : Expr) (t : Temp) :
    HandsOver env (target.lowerTarget env t) target.callsTarget := by
  unfold Expr.lowerTarget
  split
  · rename_i array index hl hk
    rw [Expr.callsTarget, hl, hk]
    exact array.handsOver.bind fun a ↦ index.handsOver.andThen fun i ↦
      (HandsOver.checkedAddress a i).before fun _ ↦ .append rfl rfl
  · rename_i owner symbol hl hk
    rw [Expr.callsTarget, hl, hk]
    refine (Expr.handsOverOwner owner).andThen fun object ↦ ?_
    rw [Env.findVar_eq]
    exact (HandsOver.lookUp _ _).before fun _ ↦ .append rfl rfl
  · rename_i symbol hl hk
    rw [Expr.callsTarget, hl, hk]
    exact (HandsOver.findTemp symbol).before fun _ ↦ .append rfl rfl
  · rename_i symbol hl hk
    rw [Expr.callsTarget, hl, hk]
    exact (HandsOver.findTemp symbol).before fun _ ↦ .append rfl rfl
  · rename_i symbol hl hk
    rw [Expr.callsTarget, hl, hk]
    exact (HandsOver.declare symbol).andThen fun _ ↦ .append rfl rfl
  · exact .reject _

theorem printer_arity {type : DataType} {r : Routine} (h : Routine.printer? type = some r) :
    r.arity = 1 := by
  cases type <;> cases h <;> rfl

theorem Expr.handsOverPrint (e : Expr) : HandsOver env (e.lowerPrint env) e.callsPrint := by
  refine e.handsOver.bind fun t ↦ ?_
  cases hp : Routine.printer? e.type with
  | none => exact .reject _
  | some r =>
    have h : HandsOver env (pass t >>= fun _ ↦ callRoutine r) [.made (.routine r)] :=
      .print t (printer_arity hp)
    have hunit := h.andThen fun _ ↦ .pure ()
    rwa [bind_assoc] at hunit

theorem Expr.handsOverPrints (args : List Expr) :
    HandsOver env (args.forM (·.lowerPrint env)) (args.flatMap Expr.callsPrint) := by
  induction args with
  | nil => exact .pure ()
  | cons e args ih => exact e.handsOverPrint.bind fun _ ↦ ih

theorem Expr.handsOverGuard (exit : Label) (guard : Option Expr) :
    HandsOver env (Expr.lowerGuard env exit guard) (Expr.callsOption guard) := by
  cases guard with
  | none => exact .pure ()
  | some guard => exact guard.handsOver.andThen fun _ ↦ .append rfl rfl

mutual

theorem Stmt.handsOver (exit : Option Label) : (stmt : Stmt) →
    HandsOver env (stmt.lower env exit) stmt.calls
  | .mk (.varDef v) _ => (HandsOver.declare v).andThen fun _ ↦ .pure ()
  | .mk (.block statements) _ => Stmt.handsOverAll exit statements
  | .mk (.exec e) _ => e.handsOverEffects
  | .mk (.assign target source) _ => source.handsOver.bind fun t ↦ target.handsOverTarget t
  | .mk (.cond condition thenBranch (some elseBranch)) _ =>
    condition.handsOver.bind fun _ ↦ (HandsOver.freshLabel _).before fun _ ↦
      (HandsOver.freshLabel _).before fun _ ↦ (HandsOver.append rfl rfl).before fun _ ↦
      (thenBranch.handsOver exit).bind fun _ ↦ (HandsOver.append rfl rfl).before fun _ ↦
      (HandsOver.place _).before fun _ ↦ (elseBranch.handsOver exit).andThen fun _ ↦ .place _
  | .mk (.cond condition thenBranch none) _ =>
    condition.handsOver.bind fun _ ↦ (HandsOver.freshLabel _).before fun _ ↦
      (HandsOver.append rfl rfl).before fun _ ↦ (thenBranch.handsOver exit).bind fun _ ↦ .place _
  | .mk (.whileLoop condition body) _ =>
    (HandsOver.freshLabel _).before fun _ ↦ (HandsOver.place _).before fun _ ↦
      condition.handsOver.bind fun _ ↦ (HandsOver.freshLabel _).before fun leave ↦
      (HandsOver.append rfl rfl).before fun _ ↦ (body.handsOver (some leave)).andThen fun _ ↦
      .closeLoop _ leave
  | .mk (.forLoop init condition update body) _ =>
    (Stmt.handsOverOption exit init).bind fun _ ↦ (HandsOver.freshLabel _).before fun _ ↦
      (HandsOver.freshLabel _).before fun _ ↦ (HandsOver.append rfl rfl).before fun _ ↦
      (HandsOver.place _).before fun _ ↦ (Stmt.handsOverOption exit update).bind fun _ ↦
      (HandsOver.place _).before fun _ ↦ condition.handsOver.bind fun _ ↦
      (HandsOver.freshLabel _).before fun leave ↦ (HandsOver.append rfl rfl).before fun _ ↦
      (body.handsOver (some leave)).andThen fun _ ↦ .closeLoop _ leave
  | .mk (.forEach v array guard body) _ =>
    (HandsOver.declare v).bind fun element ↦ array.handsOver.bind fun a ↦
      (HandsOver.openEach element a).before fun loop ↦
      (Expr.handsOverGuard loop.leave guard).bind fun _ ↦ (HandsOver.advance loop).before fun _ ↦
      (body.handsOver (some loop.leave)).andThen fun _ ↦ .closeLoop loop.again loop.leave
  | .mk (.ret value) _ => (Expr.handsOverOption value).andThen fun _ ↦ .append rfl rfl
  | .mk .leave _ => by
    cases exit with
    | none => exact .reject _
    | some l => exact .append rfl rfl
  | .mk (.print args) _ => Expr.handsOverPrints args
  | .mk (.guarded alternatives last) _ =>
    (Branch.handsOverAll exit alternatives).bind fun _ ↦ last.handsOver exit _

theorem Stmt.handsOverOption (exit : Option Label) : (stmt : Option Stmt) →
    HandsOver env (Stmt.lowerOption env exit stmt) (Stmt.callsOption stmt)
  | none => .pure ()
  | some stmt => stmt.handsOver exit

theorem Stmt.handsOverAll (exit : Option Label) : (statements : List Stmt) →
    HandsOver env (Stmt.lowerAll env exit statements) (Stmt.callsAll statements)
  | [] => .pure ()
  | stmt :: rest => (stmt.handsOver exit).bind fun _ ↦ Stmt.handsOverAll exit rest

theorem Branch.handsOver (exit : Option Label) : (b : Branch) → (stem : String) →
    HandsOver env (b.lower env exit stem) b.calls
  | .mk guard body, _ =>
    guard.handsOver.bind fun _ ↦ (HandsOver.freshLabel _).before fun _ ↦
      (HandsOver.append rfl rfl).before fun _ ↦ (body.handsOver exit).andThen fun _ ↦ .place _

theorem Branch.handsOverAll (exit : Option Label) : (branches : List Branch) →
    HandsOver env (Branch.lowerAll env exit branches) (Branch.callsAll branches)
  | [] => .pure ()
  | b :: rest => (b.handsOver exit _).bind fun _ ↦ Branch.handsOverAll exit rest

end

end ThreeAddress.Checked
