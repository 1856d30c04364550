import ThreeAddress.Proofs.Lowering.Closed

namespace ThreeAddress.Control

open Checked Code Lowering

/-- Code that leaves its result in a temporary. -/
structure Segment where
  code : List Instr
  value : Temp
deriving DecidableEq

/-- A loop over an array, with the temporary for the next place of its cursor. -/
structure Each extends ArrayLoop where
  nextCursor : Temp
deriving DecidableEq

inductive Outline where
  | skip
  | leaf (code : List Instr)
  | seq (first rest : Outline)
  | when (test : Segment) (done : Label) (body : Outline)
  | choose (test : Segment) (otherwise done : Label) (yes no : Outline)
  | whileLoop (again exit : Label) (test : Segment) (body : Outline)
  | forLoop (check again exit : Label) (test : Segment) (update body : Outline)
  | forEach (loop : Each) (array : Segment) (guard : Option Segment) (body : Outline)
  | ret (value : Option Segment)
  | leave (target : Label)
deriving DecidableEq

namespace Each

def advance (e : Each) : List Instr :=
  [.binary e.nextCursor .add e.cursor e.word, .copy e.cursor e.nextCursor]

def guardCode (e : Each) : Option Segment → List Instr
  | none => []
  | some guard => guard.code ++ [.jumpIfZero guard.value e.leave]

def scratch (e : Each) : List Temp :=
  [e.word, e.one, e.cursor, e.length, e.index, e.more, e.nextIndex, e.current, e.nextCursor]

end Each

namespace Outline

def flatten : Outline → List Instr
  | skip => []
  | leaf code => code
  | seq first rest => first.flatten ++ rest.flatten
  | when test done body =>
    test.code ++ .jumpIfZero test.value done :: (body.flatten ++ [.label done])
  | choose test otherwise done yes no =>
    test.code ++ .jumpIfZero test.value otherwise :: (yes.flatten ++
      .jump done :: .label otherwise :: (no.flatten ++ [.label done]))
  | whileLoop again exit test body =>
    .label again :: (test.code ++ .jumpIfZero test.value exit :: (body.flatten ++
      [.jump again, .label exit]))
  | forLoop check again exit test update body =>
    .jump check :: .label again :: (update.flatten ++ .label check :: (test.code ++
      .jumpIfZero test.value exit :: (body.flatten ++ [.jump again, .label exit])))
  | forEach loop array guard body =>
    array.code ++ (loop.setup array.value ++ .label loop.again :: (loop.test ++ (loop.fetch ++
      (loop.guardCode guard ++ (loop.advance ++ (body.flatten ++
        [.jump loop.again, .label loop.leave]))))))
  | ret none => [.ret none]
  | ret (some value) => value.code ++ [.ret (some value.value)]
  | leave target => [.jump target]

variable {test array : Segment} {check again otherwise done exit : Label}
variable {body update yes no : Outline}
variable {loop : Each} {guard : Option Segment}

-- the equations are built here, once for all the lemmas below
attribute [local simp] flatten

@[simp] theorem labels_when : labels (when test done body).flatten =
    labels test.code ++ (labels body.flatten ++ [done]) := by
  simp [flatten, Instr.label?]

@[simp] theorem targets_when : targets (when test done body).flatten =
    targets test.code ++ done :: targets body.flatten := by
  simp [flatten, Instr.target?]

@[simp] theorem labels_choose : labels (choose test otherwise done yes no).flatten =
    labels test.code ++ (labels yes.flatten ++ otherwise :: (labels no.flatten ++ [done])) := by
  simp [flatten, Instr.label?]

@[simp] theorem targets_choose : targets (choose test otherwise done yes no).flatten =
    targets test.code ++ otherwise :: (targets yes.flatten ++ done :: targets no.flatten) := by
  simp [flatten, Instr.target?]

@[simp] theorem labels_whileLoop : labels (whileLoop again exit test body).flatten =
    again :: (labels test.code ++ (labels body.flatten ++ [exit])) := by
  simp [flatten, Instr.label?]

@[simp] theorem targets_whileLoop : targets (whileLoop again exit test body).flatten =
    targets test.code ++ exit :: (targets body.flatten ++ [again]) := by
  simp [flatten, Instr.target?]

@[simp] theorem labels_forLoop : labels (forLoop check again exit test update body).flatten =
    again :: (labels update.flatten ++ check :: (labels test.code ++
      (labels body.flatten ++ [exit]))) := by
  simp [flatten, Instr.label?]

@[simp] theorem targets_forLoop : targets (forLoop check again exit test update body).flatten =
    check :: (targets update.flatten ++ (targets test.code ++ exit ::
      (targets body.flatten ++ [again]))) := by
  simp [flatten, Instr.target?]

@[simp] theorem labels_forEach : labels (forEach loop array guard body).flatten =
    labels array.code ++ loop.again :: (labels (loop.guardCode guard) ++
      (labels body.flatten ++ [loop.leave])) := by
  simp [flatten, ArrayLoop.setup, ArrayLoop.test, ArrayLoop.fetch, Each.advance, Instr.label?]

@[simp] theorem targets_forEach : targets (forEach loop array guard body).flatten =
    targets array.code ++ loop.leave :: (targets (loop.guardCode guard) ++
      (targets body.flatten ++ [loop.again])) := by
  simp [flatten, ArrayLoop.setup, ArrayLoop.test, ArrayLoop.fetch, Each.advance, Instr.target?]

end Outline

/-- Lets an action run and returns the code that it appends together with its result. -/
def recorded {α : Type} (x : Lower α) : Lower (List Instr × α) := fun s ↦
  match x s with
  | .ok a s' => .ok (s'.code.drop s.code.length, a) s'
  | .error e s' => .error e s'

end ThreeAddress.Control

namespace ThreeAddress.Checked

open Code Control Lowering

def Expr.segment (env : Env) (e : Expr) : Lower Segment := do
  let (code, value) ← recorded (e.lower env)
  return ⟨code, value⟩

def Expr.segmentOption (env : Env) : Option Expr → Lower (Option Segment)
  | none => return none
  | some e => do
    let segment ← e.segment env
    return some segment

def Expr.segmentGuard (env : Env) (exit : Label) (guard : Option Expr) :
    Lower (Option Segment) := do
  let segment ← Expr.segmentOption env guard
  match segment with
  | none => return none
  | some guard =>
    append (.jumpIfZero guard.value exit)
    return some guard

mutual

/-- Lowers a statement and keeps its outline. -/
def Stmt.outline (env : Env) (exit : Option Label) : Stmt → Lower Outline
  | .mk kind span =>
    match kind with
    | .varDef symbol => do
      let _ ← declare symbol
      return .skip
    | .block statements => Stmt.outlineAll env exit statements
    | .exec e => do
      let (code, _) ← recorded (e.lowerEffects env)
      return .leaf code
    | .assign target source => do
      let (code, _) ← recorded (do
        let t ← source.lower env
        target.lowerTarget env t)
      return .leaf code
    | .cond condition thenBranch (some elseBranch) => do
      let test ← condition.segment env
      let done ← freshLabel "if_end"
      let otherwise ← freshLabel "else"
      append (.jumpIfZero test.value otherwise)
      let yes ← thenBranch.outline env exit
      append (.jump done)
      place otherwise
      let no ← elseBranch.outline env exit
      place done
      return .choose test otherwise done yes no
    | .cond condition thenBranch none => do
      let test ← condition.segment env
      let done ← freshLabel "if_end"
      append (.jumpIfZero test.value done)
      let yes ← thenBranch.outline env exit
      place done
      return .when test done yes
    | .whileLoop condition body => do
      let again ← freshLabel "loop"
      place again
      let test ← condition.segment env
      let leave ← freshLabel "loop_exit"
      append (.jumpIfZero test.value leave)
      let body ← body.outline env (some leave)
      closeLoop again leave
      return .whileLoop again leave test body
    | .forLoop init condition update body => do
      let init ← Stmt.outlineOption env exit init
      let check ← freshLabel "for_cond"
      let again ← freshLabel "loop"
      append (.jump check)
      place again
      let update ← Stmt.outlineOption env exit update
      place check
      let test ← condition.segment env
      let leave ← freshLabel "loop_exit"
      append (.jumpIfZero test.value leave)
      let body ← body.outline env (some leave)
      closeLoop again leave
      return .seq init (.forLoop check again leave test update body)
    | .forEach binding array guard body => do
      let element ← declare binding
      let array ← array.segment env
      let loop ← openEach element array.value
      let guard ← Expr.segmentGuard env loop.leave guard
      let nextCursor ← loop.advance
      let body ← body.outline env (some loop.leave)
      closeLoop loop.again loop.leave
      return .forEach { loop with nextCursor } array guard body
    | .ret value => do
      let value ← Expr.segmentOption env value
      append (.ret (value.map (·.value)))
      return .ret value
    | .leave =>
      match exit with
      | some l => do
        append (.jump l)
        return .leave l
      | none => reject .breakOutsideLoop span
    | .print args => do
      let (code, _) ← recorded (args.forM (·.lowerPrint env))
      return .leaf code
    | .guarded alternatives last => do
      let first ← Branch.outlineAll env exit alternatives
      let rest ← last.outline env exit "guard_end"
      return .seq first rest

def Stmt.outlineOption (env : Env) (exit : Option Label) : Option Stmt → Lower Outline
  | none => return .skip
  | some s => s.outline env exit

def Stmt.outlineAll (env : Env) (exit : Option Label) : List Stmt → Lower Outline
  | [] => return .skip
  | s :: rest => do
    let first ← s.outline env exit
    let rest ← Stmt.outlineAll env exit rest
    return .seq first rest

def Branch.outline (env : Env) (exit : Option Label) (stem : String) : Branch → Lower Outline
  | .mk guard body => do
    let test ← guard.segment env
    let skip ← freshLabel stem
    append (.jumpIfZero test.value skip)
    let body ← body.outline env exit
    place skip
    return .when test skip body

def Branch.outlineAll (env : Env) (exit : Option Label) : List Branch → Lower Outline
  | [] => return .skip
  | b :: rest => do
    let first ← b.outline env exit "guard_skip"
    let rest ← Branch.outlineAll env exit rest
    return .seq first rest

end

end ThreeAddress.Checked

namespace ThreeAddress.Control

open Checked Code Lowering

/-- The first action does what the second does, and what it returns says more. -/
def Refines {α β : Type} (r : α → β) (x : Lower α) (y : Lower β) : Prop := r <$> x = y

namespace Refines

variable {α β γ δ : Type} {r : α → β} {q : γ → δ} {x : Lower α} {y : Lower β}

theorem refl (x : Lower α) : Refines (fun a ↦ a) x x := id_map x

theorem bind {f : α → Lower γ} {g : β → Lower δ} (hx : Refines r x y)
    (hf : ∀ a, Refines q (f a) (g (r a))) : Refines q (x >>= f) (y >>= g) := by
  unfold Refines at *
  rw [map_bind, ← hx, bind_map_left]
  exact bind_congr hf

theorem pure (a : α) : Refines r (pure a) (pure (r a)) := map_pure r a

theorem same {x : Lower α} {f : α → Lower γ} {g : α → Lower δ} (hf : ∀ a, Refines q (f a) (g a)) :
    Refines q (x >>= f) (x >>= g) := (refl x).bind hf

theorem last {y : Lower Unit} {r : α → Unit} (f : α → γ) (h : Refines r x y) :
    Refines (fun _ ↦ ()) (x >>= fun a ↦ Pure.pure (f a)) y := by
  unfold Refines at *
  rw [← h, map_bind, map_eq_pure_bind]
  exact bind_congr fun _ ↦ map_pure _ _

theorem recorded (x : Lower α) : Refines Prod.snd (recorded x) x := by
  funext s
  show EStateM.map Prod.snd (Control.recorded x) s = x s
  unfold EStateM.map Control.recorded
  cases x s <;> rfl

theorem ok {s s' : State} {b : β} (h : Refines r x y) (hy : y s = .ok b s') :
    ∃ a, x s = .ok a s' ∧ r a = b := by
  rw [← show r <$> x = y from h, map_eq_pure_bind] at hy
  obtain ⟨a, t, hx, hb⟩ := bind_ok_iff.mp hy
  obtain ⟨hr, rfl⟩ := pure_ok_iff.mp hb
  exact ⟨a, hx, hr⟩

theorem of_ok {s s' : State} {a : α} (h : Refines r x y) (hx : x s = .ok a s') :
    y s = .ok (r a) s' := by
  rw [← show r <$> x = y from h, map_eq_pure_bind, bind_of_ok hx]
  rfl

end Refines

end ThreeAddress.Control

namespace ThreeAddress.Checked

open Code Control Lowering

variable {env : Env} {exit : Option Label}

theorem Expr.segment_refines (e : Expr) :
    Refines Segment.value (e.segment env) (e.lower env) := by
  have h := (Refines.recorded (e.lower env)).bind (q := Segment.value)
    (f := fun p ↦ Pure.pure ⟨p.1, p.2⟩) (g := Pure.pure) fun _ ↦ .pure _
  rwa [bind_pure] at h

theorem Expr.segmentOption_refines (e : Option Expr) :
    Refines (Option.map Segment.value) (Expr.segmentOption env e) (Expr.lowerOption env e) := by
  cases e with
  | none => exact .pure _
  | some e => exact e.segment_refines.bind fun _ ↦ .pure _

theorem Expr.segmentGuard_refines (l : Label) (guard : Option Expr) :
    Refines (fun _ ↦ ()) (Expr.segmentGuard env l guard) (Expr.lowerGuard env l guard) := by
  cases guard with
  | none => exact .pure _
  | some guard =>
    unfold Expr.segmentGuard Expr.segmentOption Expr.lowerGuard
    rw [bind_assoc]
    refine guard.segment_refines.bind fun _ ↦ ?_
    rw [pure_bind]
    exact (Refines.refl _).last _

mutual

theorem Stmt.outline_refines (exit : Option Label) : (stmt : Stmt) →
    Refines (fun _ ↦ ()) (stmt.outline env exit) (stmt.lower env exit)
  | .mk (.varDef v) _ => .same fun _ ↦ .pure _
  | .mk (.block statements) _ => Stmt.outlineAll_refines exit statements
  | .mk (.exec _) _ => (Refines.recorded _).last _
  | .mk (.assign _ _) _ => (Refines.recorded _).last _
  | .mk (.cond condition thenBranch (some elseBranch)) _ =>
    condition.segment_refines.bind fun _ ↦ .same fun _ ↦ .same fun _ ↦
      .same fun _ ↦ (thenBranch.outline_refines exit).bind fun _ ↦
      .same fun _ ↦ .same fun _ ↦
      (elseBranch.outline_refines exit).bind fun _ ↦ (Refines.refl _).last _
  | .mk (.cond condition thenBranch none) _ =>
    condition.segment_refines.bind fun _ ↦ .same fun _ ↦ .same fun _ ↦
      (thenBranch.outline_refines exit).bind fun _ ↦ (Refines.refl _).last _
  | .mk (.whileLoop condition body) _ =>
    .same fun _ ↦ .same fun _ ↦ condition.segment_refines.bind fun _ ↦
      .same fun leave ↦ .same fun _ ↦
      (body.outline_refines (some leave)).bind fun _ ↦ (Refines.refl _).last _
  | .mk (.forLoop init condition update body) _ =>
    (Stmt.outlineOption_refines exit init).bind fun _ ↦ .same fun _ ↦
      .same fun _ ↦ .same fun _ ↦ .same fun _ ↦
      (Stmt.outlineOption_refines exit update).bind fun _ ↦ .same fun _ ↦
      condition.segment_refines.bind fun _ ↦ .same fun leave ↦
      .same fun _ ↦ (body.outline_refines (some leave)).bind fun _ ↦ (Refines.refl _).last _
  | .mk (.forEach binding array guard body) _ =>
    .same fun _ ↦ array.segment_refines.bind fun _ ↦ .same fun loop ↦
      (Expr.segmentGuard_refines loop.leave guard).bind fun _ ↦ .same fun _ ↦
      (body.outline_refines (some loop.leave)).bind fun _ ↦ (Refines.refl _).last _
  | .mk (.ret e) _ => (Expr.segmentOption_refines e).bind fun _ ↦ (Refines.refl _).last _
  | .mk .leave _ => by
    cases exit with
    | none => rfl
    | some l => exact (Refines.refl _).last _
  | .mk (.print _) _ => (Refines.recorded _).last _
  | .mk (.guarded alternatives last) _ =>
    (Branch.outlineAll_refines exit alternatives).bind fun _ ↦
      (last.outline_refines exit _).last _

theorem Stmt.outlineOption_refines (exit : Option Label) : (stmt : Option Stmt) →
    Refines (fun _ ↦ ()) (Stmt.outlineOption env exit stmt) (Stmt.lowerOption env exit stmt)
  | none => .pure _
  | some stmt => stmt.outline_refines exit

theorem Stmt.outlineAll_refines (exit : Option Label) : (statements : List Stmt) →
    Refines (fun _ ↦ ()) (Stmt.outlineAll env exit statements) (Stmt.lowerAll env exit statements)
  | [] => .pure _
  | stmt :: rest =>
    (stmt.outline_refines exit).bind fun _ ↦ (Stmt.outlineAll_refines exit rest).last _

theorem Branch.outline_refines (exit : Option Label) (stem : String) : (b : Branch) →
    Refines (fun _ ↦ ()) (b.outline env exit stem) (b.lower env exit stem)
  | .mk guard body =>
    guard.segment_refines.bind fun _ ↦ .same fun _ ↦ .same fun _ ↦
      (body.outline_refines exit).bind fun _ ↦ (Refines.refl _).last _

theorem Branch.outlineAll_refines (exit : Option Label) : (bs : List Branch) →
    Refines (fun _ ↦ ()) (Branch.outlineAll env exit bs) (Branch.lowerAll env exit bs)
  | [] => .pure _
  | b :: rest =>
    (b.outline_refines exit _).bind fun _ ↦ (Branch.outlineAll_refines exit rest).last _

end

end ThreeAddress.Checked
