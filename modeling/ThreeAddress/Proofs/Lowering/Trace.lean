import ThreeAddress.Proofs.Control.Coverage
import ThreeAddress.Proofs.Except

namespace ThreeAddress

open Code

def Event.instr? : Event → Option Instr
  | .appended i => some i
  | _ => none

def recorded (log : List Event) : List Instr := log.filterMap Event.instr?

@[simp] theorem recorded_nil : recorded [] = [] := rfl

@[simp] theorem recorded_append (new old : List Event) :
    recorded (new ++ old) = recorded new ++ recorded old := List.filterMap_append

@[simp] theorem recorded_cons (event : Event) (log : List Event) :
    recorded (event :: log) = event.instr?.toList ++ recorded log := by
  rw [recorded, List.filterMap_cons]
  cases event.instr? <;> rfl

end ThreeAddress

namespace ThreeAddress.Lowering

open Checked Code

variable {α β : Type} {symbols : SymbolTable} {g g₁ g₂ : Generator} {new new₁ new₂ : List Event}

/-- The offset that has no opposite comes from the table only. -/
def Grounded (symbols : SymbolTable) (i : Instr) : Prop :=
  i.offset? = some .minValue → symbols.HasOffset .minValue

theorem Grounded.of_none {i : Instr} (h : i.offset? = none) : Grounded symbols i :=
  fun ho ↦ by rw [h] at ho; cases ho

/-- The new events record what was added to the code. The latest stands first. -/
structure Recorded (symbols : SymbolTable) (g g' : Generator) (new : List Event) : Prop where
  log_eq : g'.log = new ++ g.log
  body_eq : g'.current.body.toList = g.current.body.toList ++ (recorded new).reverse
  grounded : ∀ i ∈ recorded new, Grounded symbols i

namespace Recorded

theorem of_eq (hlog : g₁.log = g.log) (hcurrent : g₁.current = g.current) :
    Recorded symbols g g₁ [] := ⟨hlog, by simp [hcurrent], by simp⟩

theorem refl (g : Generator) : Recorded symbols g g [] := of_eq rfl rfl

theorem trans (h₁ : Recorded symbols g g₁ new₁) (h₂ : Recorded symbols g₁ g₂ new₂) :
    Recorded symbols g g₂ (new₂ ++ new₁) where
  log_eq := by rw [h₂.log_eq, h₁.log_eq, List.append_assoc]
  body_eq := by rw [h₂.body_eq, h₁.body_eq]; simp
  grounded i hi := by
    rw [recorded_append, List.mem_append] at hi
    exact hi.elim (h₂.grounded i) (h₁.grounded i)

theorem note (h : Recorded symbols g g₁ new) (event : Event) (he : event.instr? = none) :
    Recorded symbols g (g₁.note event) (event :: new) := by
  have hone : Recorded symbols g₁ (g₁.note event) [event] :=
    ⟨rfl, by simp [he, Generator.note], by simp [he]⟩
  exact h.trans hone

theorem append {i : Instr} (h : Recorded symbols g g₁ new) (hi : Grounded symbols i) :
    Recorded symbols g (g₁.append i) (.appended i :: new) := by
  have hone : Recorded symbols g₁ (g₁.append i) [.appended i] := by
    refine ⟨rfl, ?_, ?_⟩
    · simp [Generator.append, Generator.note, Event.instr?]
    · simpa [Event.instr?] using hi
  exact h.trans hone

end Recorded

/-- Whatever comes of an action, the log records its instructions. -/
def Records {α : Type} (symbols : SymbolTable) (x : Lower α) : Prop :=
  ∀ s, match x s with
    | .ok _ s' | .error _ s' => ∃ new, Recorded symbols s.generator s'.generator new

namespace Records

variable {x : Lower α} {env : Env} {span : Span}

theorem bind {f : α → Lower β} (hx : Records symbols x) (hf : ∀ a, Records symbols (f a)) :
    Records symbols (x >>= f) := by
  intro s
  have hs := hx s
  cases hxs : x s with
  | ok a s₁ =>
    rw [hxs] at hs
    obtain ⟨new₁, h₁⟩ := hs
    rw [bind_of_ok hxs]
    have hfs := hf a s₁
    cases hr : f a s₁ with
    | ok b s₂ =>
      rw [hr] at hfs
      obtain ⟨new₂, h₂⟩ := hfs
      exact ⟨_, h₁.trans h₂⟩
    | error e s₂ =>
      rw [hr] at hfs
      obtain ⟨new₂, h₂⟩ := hfs
      exact ⟨_, h₁.trans h₂⟩
  | error e s₁ =>
    rw [hxs] at hs
    rw [bind_of_error hxs]
    exact hs

theorem pure (a : α) : Records symbols (pure a) := fun _ ↦ ⟨_, .refl _⟩

theorem reject (kind : DefectKind) (span : Span) : Records symbols (reject kind span : Lower α) :=
  fun _ ↦ ⟨_, .refl _⟩

theorem find {found : Option α} {kind : DefectKind} {f : α → Lower β}
    (hf : ∀ a, found = some a → Records symbols (f a)) :
    Records symbols (lookUp found kind span >>= f) := by
  cases found with
  | none => exact fun _ ↦ ⟨_, .refl _⟩
  | some a => exact hf a rfl

theorem lookUp (found : Option α) (kind : DefectKind) (span : Span) :
    Records symbols (lookUp found kind span) := by
  cases found with
  | none => exact reject kind span
  | some a => exact pure a

theorem step {f : Generator → α × Generator} (h : ∀ g, ∃ new, Recorded symbols g (f g).2 new) :
    Records symbols (step f) := fun s ↦ h s.generator

theorem attempt {f : Generator → Except Fault (α × Generator)}
    (h : ∀ g a g', f g = .ok (a, g') → ∃ new, Recorded symbols g g' new) :
    Records symbols (attempt f) := by
  intro s
  cases hf : f s.generator with
  | error fault =>
    rw [attempt_of_error hf]
    exact ⟨_, .refl _⟩
  | ok r =>
    rw [attempt_of_ok hf]
    exact h s.generator r.1 r.2 hf

theorem freshTemp : Records symbols freshTemp := step fun _ ↦ ⟨_, .of_eq rfl rfl⟩

theorem freshLabel (stem : String) : Records symbols (freshLabel stem) :=
  step fun g ↦ by
    have h : Recorded symbols g { g with labels := Generator.countUp stem g.labels } [] :=
      .of_eq rfl rfl
    exact ⟨_, h.note (.labelIssued _) rfl⟩

theorem append {i : Instr} (h : Grounded symbols i) : Records symbols (append i) :=
  step fun g ↦ ⟨_, (Recorded.refl g).append h⟩

theorem append_plain {i : Instr} (h : i.offset? = none) : Records symbols (Lowering.append i) :=
  append (.of_none h)

theorem compute {instr : Temp → Instr} (h : ∀ t, Grounded symbols (instr t)) :
    Records symbols (compute instr) :=
  freshTemp.bind fun t ↦ (append (h t)).bind fun _ ↦ pure t

theorem compute_plain {instr : Temp → Instr} (h : ∀ t, (instr t).offset? = none) :
    Records symbols (Lowering.compute instr) := compute fun t ↦ .of_none (h t)

theorem load (base : Temp) {offset : Int32}
    (h : offset = .minValue → symbols.HasOffset .minValue) : Records symbols (load base offset) :=
  compute fun _ ho ↦ h (Option.some.inj ho)

theorem store (src base : Temp) {offset : Int32}
    (h : offset = .minValue → symbols.HasOffset .minValue) :
    Records symbols (Lowering.append (.store src base offset)) :=
  append fun ho ↦ h (Option.some.inj ho)

theorem pass (t : Temp) : Records symbols (pass t) :=
  step fun g ↦ by
    have h : Recorded symbols g { g with pending := g.pending + 1 } [] := .of_eq rfl rfl
    exact ⟨_, h.append (.of_none rfl)⟩

theorem recorded_call {instr : Option Temp → Instr} (h : ∀ d, (instr d).offset? = none)
    (type : DataType) (g : Generator) : ∃ new, Recorded symbols g (g.call instr type).2 new := by
  unfold Generator.call Generator.resultTemp
  by_cases hv : type.isVoid
  · simp only [if_pos hv]
    have hp : Recorded symbols g { g with pending := 0 } [] := .of_eq rfl rfl
    exact ⟨_, hp.append (.of_none (h _))⟩
  · simp only [if_neg hv]
    have hp : Recorded symbols g { g with pending := 0, temps := g.temps + 1 } [] := .of_eq rfl rfl
    exact ⟨_, hp.append (.of_none (h _))⟩

theorem call {instr : Option Temp → Instr} (h : ∀ d, (instr d).offset? = none) (type : DataType) :
    Records symbols (call instr type) := step (recorded_call h type)

theorem callRoutine (routine : Routine) : Records symbols (callRoutine routine) := by
  refine attempt fun g a g' h ↦ ?_
  unfold Generator.callRoutine at h
  split at h
  · have hcall :
        ∃ new, Recorded symbols g (g.call (.call · routine.name) routine.result).2 new :=
      recorded_call (fun _ ↦ rfl) routine.result g
    rwa [Except.ok.inj h] at hcall
  · cases h

theorem place (l : Label) : Records symbols (place l) := by
  refine attempt fun g a g' h ↦ ?_
  obtain ⟨g₁, hg, hpair⟩ := map_eq_ok h
  unfold Generator.place at hg
  split at hg
  · cases hg
  · cases hg
    cases hpair
    have hp : Recorded symbols g { g with placed := l :: g.placed } [] := .of_eq rfl rfl
    exact ⟨_, hp.append (.of_none rfl)⟩

theorem of_mechanical {x : Lower α} (h : Mechanical x) : Records symbols x := by
  induction h with
  | pure a => exact pure a
  | bind _ _ ihx ihf => exact ihx.bind ihf
  | freshTemp => exact freshTemp
  | freshLabel stem => exact freshLabel stem
  | append hi => exact append fun ho ↦ absurd ho hi
  | pass t => exact pass t
  | callRoutine routine => exact callRoutine routine
  | place l => exact place l

theorem declare (v : VarId) : Records symbols (declare v) := by
  refine freshTemp.bind fun t ↦ ?_
  have hbind : Records symbols (modify fun s ↦ { s with bound := (v, t) :: s.bound }) :=
    fun _ ↦ ⟨_, .refl _⟩
  exact hbind.bind fun _ ↦ pure t

theorem findTemp (v : VarId) : Records symbols (env.findTemp v span) := by
  intro s
  cases hf : s.bound.lookup v with
  | some t =>
    rw [Env.findTemp_of_some hf]
    exact ⟨_, .refl _⟩
  | none =>
    rw [Env.findTemp_of_none hf, Env.findVar_eq]
    exact find (fun symbol _ ↦ reject _ span) s

theorem demand (result : Option Temp) : Records symbols (demand result span) := by
  rw [demand_eq]
  exact lookUp result _ span

theorem findReceiver : Records symbols (env.findReceiver span) := by
  rw [Env.findReceiver_eq]
  exact lookUp _ _ span

theorem findClass (c : ClassId) : Records symbols (env.findClass c span) := by
  rw [Env.findClass_eq]
  exact lookUp _ _ span

theorem forM {ι : Type} {f : ι → Lower Unit} (is : List ι) (h : ∀ i ∈ is, Records symbols (f i)) :
    Records symbols (is.forM f) := by
  induction is with
  | nil => exact pure ()
  | cons i is ih =>
    obtain ⟨hi, his⟩ := List.forall_mem_cons.mp h
    exact hi.bind fun _ ↦ ih his

theorem compareStrings (op : BinaryOp) (left right : Temp) :
    Records symbols (compareStrings op left right span) := by
  refine (pass left).bind fun _ ↦ (pass right).bind fun _ ↦ (callRoutine _).bind fun result ↦
    (demand result).bind fun equal ↦ ?_
  split
  · exact compute_plain fun _ ↦ rfl
  · exact pure equal

theorem applyOp (op : BinaryOp) (leftType rightType : DataType) (left right : Temp) :
    Records symbols (applyOp op leftType rightType left right span) := by
  unfold Lowering.applyOp
  split
  · exact of_mechanical ((Mechanical.guardDivisor right).bind fun _ ↦ .operate _ left right)
  · exact of_mechanical ((Mechanical.guardDivisor right).bind fun _ ↦ .operate _ left right)
  · split
    · exact compareStrings _ left right
    · exact of_mechanical (.operate _ left right)
  · split
    · exact compareStrings _ left right
    · exact of_mechanical (.operate _ left right)
  · exact of_mechanical (.operate _ left right)

theorem callMethod (method : MethodSymbol) (receiver : Option Temp) (args : List Temp)
    (h : method.offset = .minValue → symbols.HasOffset .minValue) :
    Records symbols (callMethod method receiver args) := by
  refine (forM _ fun t _ ↦ pass t).bind fun _ ↦ ?_
  cases receiver with
  | none => exact call (fun _ ↦ rfl) _
  | some receiver =>
    exact (of_mechanical (.loadFirst receiver)).bind fun vtable ↦ (load vtable h).bind fun callee ↦
      call (fun _ ↦ rfl) _

theorem cloneObject (object : Temp) (c : ClassId) :
    Records symbols (cloneObject env object c span) :=
  (findClass c).bind fun _ ↦ (compute_plain fun _ ↦ rfl).bind fun size ↦ (pass size).bind fun _ ↦
    (callRoutine _).bind fun result ↦ (demand result).bind fun clone ↦
    (forM _ fun _ h ↦ of_mechanical
      (.copyField object clone (Control.Surveys.fieldOffsets_ne_min h))).bind fun _ ↦
    (compute_plain fun _ ↦ rfl).bind fun vtable ↦
    (of_mechanical (.storeFirst vtable clone)).bind fun _ ↦ pure clone

theorem cloneIfObject (t : Temp) (type : DataType) :
    Records symbols (cloneIfObject env t type span) := by
  unfold Lowering.cloneIfObject
  split
  · exact cloneObject t _
  · exact pure t

theorem fillArray (element count : Temp) (type : DataType) :
    Records symbols (fillArray env element count type span) :=
  (of_mechanical (.openFill count)).bind fun loop ↦ (cloneIfObject element type).bind fun stored ↦
    (of_mechanical (.storeElement loop stored)).bind fun _ ↦ pure loop.array

end Records

end ThreeAddress.Lowering

namespace ThreeAddress.Checked

open Code Lowering

variable {env : Env}

theorem findVar_records {α : Type} {v : VarId} {span : Span} {f : VariableSymbol → Lower α}
    (hf : ∀ symbol, (symbol.offset = .minValue → env.symbols.HasOffset .minValue) →
      Records env.symbols (f symbol)) : Records env.symbols (env.findVar v span >>= f) := by
  rw [Env.findVar_eq]
  exact .find fun symbol hs ↦ hf symbol (var_hasOffset hs)

theorem findMethod_records {α : Type} {m : MethodId} {span : Span} {f : MethodSymbol → Lower α}
    (hf : ∀ symbol, (symbol.offset = .minValue → env.symbols.HasOffset .minValue) →
      Records env.symbols (f symbol)) : Records env.symbols (env.findMethod m span >>= f) := by
  rw [Env.findMethod_eq]
  exact .find fun symbol hs ↦ hf symbol (method_hasOffset hs)

mutual

theorem Expr.records : (e : Expr) → Records env.symbols (e.lower env)
  | .mk (.literal l) _ _ _ => .of_mechanical (.literal l)
  | .mk .null _ _ _ => .of_mechanical (.constant 0)
  | .mk .this _ _ _ => .findReceiver
  | .mk .readInteger _ _ _ => (Records.callRoutine _).bind .demand
  | .mk .readLine _ _ _ => (Records.callRoutine _).bind .demand
  | .mk (.ident owner symbol) _ .memberVar span =>
    (Expr.recordsOwner span owner).bind fun object ↦ findVar_records fun _ h ↦ .load object h
  | .mk (.ident _ symbol) _ .localVar _ => .findTemp symbol
  | .mk (.ident _ symbol) _ .paramVar _ => .findTemp symbol
  | .mk (.ident _ symbol) _ .notLValue _ => .findTemp symbol
  | .mk (.ident _ _) _ .arrayElement span => .reject _ span
  | .mk (.indexed array index) _ _ _ =>
    array.records.bind fun a ↦ index.records.bind fun i ↦
      .of_mechanical ((Mechanical.checkedAddress a i).bind fun address ↦ .loadFirst address)
  | .mk (.call c) _ _ span => (c.records span).bind .demand
  | .mk (.arrayLength array) _ _ _ => array.records.bind fun a ↦ .of_mechanical (.loadLength a)
  | .mk (.binary op left right) _ _ _ =>
    left.records.bind fun l ↦ right.records.bind fun r ↦ .applyOp op _ _ l r
  | .mk (.unary _ operand) _ _ _ => operand.records.bind fun _ ↦ .compute_plain fun _ ↦ rfl
  | .mk (.newClass c) _ _ _ =>
    (Records.findClass c).bind fun _ ↦ (Records.call (fun _ ↦ rfl) _).bind .demand
  | .mk (.newArray _ length) _ _ _ => length.records.bind fun _ ↦ .compute_plain fun _ ↦ rfl
  | .mk (.instanceOf object c) _ _ _ =>
    object.records.bind fun _ ↦ (Records.findClass c).bind fun _ ↦ .compute_plain fun _ ↦ rfl
  | .mk (.cast object c) _ _ _ => by
    refine object.records.bind fun t ↦ (Records.findClass c).bind fun _ ↦ ?_
    dsimp only
    split
    · exact (Records.append_plain rfl).bind fun _ ↦ .pure t
    · exact .pure t
  | .mk (.shallowCopy source) _ _ _ => by
    rw [Expr.lower]
    split
    · exact source.records.bind fun t ↦ .cloneObject t _
    · exact .reject _ _
  | .mk (.newSameArray element count) _ _ _ =>
    element.records.bind fun t ↦ count.records.bind fun n ↦ .fillArray t n _
  | .mk (.defaultIndex array index fallback) _ _ _ =>
    array.records.bind fun a ↦ index.records.bind fun i ↦ fallback.records.bind fun d ↦
      .of_mechanical (.readOr a i d)
  | .mk (.varBinding symbol) _ _ _ => .declare symbol

theorem Expr.recordsOwner (span : Span) : (owner : Option Expr) →
    Records env.symbols (Expr.lowerOwner env span owner)
  | some owner => owner.records
  | none => .findReceiver

theorem Call.records (span : Span) : (c : Call) → Records env.symbols (c.lower env span)
  | .mk receiver _ args =>
    findMethod_records fun symbol h ↦ (Expr.recordsOption receiver).bind fun r ↦
      (Expr.recordsAll args).bind fun ts ↦ .callMethod symbol r ts h

theorem Expr.recordsOption : (e : Option Expr) → Records env.symbols (Expr.lowerOption env e)
  | some e => e.records.bind fun t ↦ .pure (some t)
  | none => .pure none

theorem Expr.recordsAll : (es : List Expr) → Records env.symbols (Expr.lowerAll env es)
  | [] => .pure []
  | e :: es => e.records.bind fun t ↦ (Expr.recordsAll es).bind fun ts ↦ .pure (t :: ts)

end

theorem Expr.recordsEffects (e : Expr) : Records env.symbols (e.lowerEffects env) := by
  unfold Expr.lowerEffects
  split
  · exact (Call.records _ _).bind fun _ ↦ .pure ()
  · exact e.records.bind fun _ ↦ .pure ()

theorem Expr.recordsTarget (target : Expr) (t : Temp) :
    Records env.symbols (target.lowerTarget env t) := by
  unfold Expr.lowerTarget
  split
  · exact (Expr.records _).bind fun a ↦ (Expr.records _).bind fun i ↦
      .of_mechanical ((Mechanical.checkedAddress a i).bind fun address ↦ .storeFirst t address)
  · exact (Expr.recordsOwner _ _).bind fun object ↦ findVar_records fun _ h ↦ .store t object h
  · exact (Records.findTemp _).bind fun _ ↦ .append_plain rfl
  · exact (Records.findTemp _).bind fun _ ↦ .append_plain rfl
  · exact (Records.declare _).bind fun _ ↦ .append_plain rfl
  · exact .reject _ _

theorem Expr.recordsPrint (e : Expr) : Records env.symbols (e.lowerPrint env) := by
  refine e.records.bind fun t ↦ ?_
  split
  · exact .reject _ _
  · exact (Records.pass t).bind fun _ ↦ (Records.callRoutine _).bind fun _ ↦ .pure ()

theorem Expr.recordsGuard (exit : Label) (guard : Option Expr) :
    Records env.symbols (Expr.lowerGuard env exit guard) := by
  cases guard with
  | none => exact .pure ()
  | some guard => exact guard.records.bind fun _ ↦ .append_plain rfl

mutual

theorem Stmt.records (exit : Option Label) : (stmt : Stmt) →
    Records env.symbols (stmt.lower env exit)
  | .mk (.varDef v) _ => (Records.declare v).bind fun _ ↦ .pure ()
  | .mk (.block statements) _ => Stmt.recordsAll exit statements
  | .mk (.exec e) _ => e.recordsEffects
  | .mk (.assign target source) _ => source.records.bind target.recordsTarget
  | .mk (.cond condition thenBranch (some elseBranch)) _ =>
    condition.records.bind fun _ ↦ (Records.freshLabel _).bind fun done ↦
      (Records.freshLabel _).bind fun otherwise ↦ (Records.append_plain rfl).bind fun _ ↦
      (thenBranch.records exit).bind fun _ ↦ (Records.append_plain rfl).bind fun _ ↦
      (Records.place otherwise).bind fun _ ↦ (elseBranch.records exit).bind fun _ ↦ .place done
  | .mk (.cond condition thenBranch none) _ =>
    condition.records.bind fun _ ↦ (Records.freshLabel _).bind fun done ↦
      (Records.append_plain rfl).bind fun _ ↦ (thenBranch.records exit).bind fun _ ↦ .place done
  | .mk (.whileLoop condition body) _ =>
    (Records.freshLabel _).bind fun again ↦ (Records.place again).bind fun _ ↦
      condition.records.bind fun _ ↦ (Records.freshLabel _).bind fun leave ↦
      (Records.append_plain rfl).bind fun _ ↦ (body.records (some leave)).bind fun _ ↦
      .of_mechanical (.closeLoop again leave)
  | .mk (.forLoop init condition update body) _ =>
    (Stmt.recordsOption exit init).bind fun _ ↦ (Records.freshLabel _).bind fun test ↦
      (Records.freshLabel _).bind fun again ↦ (Records.append_plain rfl).bind fun _ ↦
      (Records.place again).bind fun _ ↦ (Stmt.recordsOption exit update).bind fun _ ↦
      (Records.place test).bind fun _ ↦ condition.records.bind fun _ ↦
      (Records.freshLabel _).bind fun leave ↦ (Records.append_plain rfl).bind fun _ ↦
      (body.records (some leave)).bind fun _ ↦ .of_mechanical (.closeLoop again leave)
  | .mk (.forEach binding array guard body) _ =>
    (Records.declare binding).bind fun element ↦ array.records.bind fun a ↦
      (Records.of_mechanical (.openEach element a)).bind fun loop ↦
      (Expr.recordsGuard loop.leave guard).bind fun _ ↦
      (Records.of_mechanical (.advance loop)).bind fun _ ↦
      (body.records (some loop.leave)).bind fun _ ↦
      .of_mechanical (.closeLoop loop.again loop.leave)
  | .mk (.ret e) _ => (Expr.recordsOption e).bind fun _ ↦ .append_plain rfl
  | .mk .leave span => by
    cases exit with
    | none => exact .reject _ span
    | some l => exact .append_plain rfl
  | .mk (.print args) _ => .forM args fun e _ ↦ e.recordsPrint
  | .mk (.guarded alternatives last) _ =>
    (Branch.recordsAll exit alternatives).bind fun _ ↦ last.records exit _

theorem Stmt.recordsOption (exit : Option Label) : (stmt : Option Stmt) →
    Records env.symbols (Stmt.lowerOption env exit stmt)
  | none => .pure ()
  | some stmt => stmt.records exit

theorem Stmt.recordsAll (exit : Option Label) : (statements : List Stmt) →
    Records env.symbols (Stmt.lowerAll env exit statements)
  | [] => .pure ()
  | stmt :: rest => (stmt.records exit).bind fun _ ↦ Stmt.recordsAll exit rest

theorem Branch.records (exit : Option Label) (stem : String) : (b : Branch) →
    Records env.symbols (b.lower env exit stem)
  | .mk guard body =>
    guard.records.bind fun _ ↦ (Records.freshLabel stem).bind fun skip ↦
      (Records.append_plain rfl).bind fun _ ↦ (body.records exit).bind fun _ ↦ .place skip

theorem Branch.recordsAll (exit : Option Label) : (bs : List Branch) →
    Records env.symbols (Branch.lowerAll env exit bs)
  | [] => .pure ()
  | b :: rest => (b.records exit _).bind fun _ ↦ Branch.recordsAll exit rest

end

end ThreeAddress.Checked
