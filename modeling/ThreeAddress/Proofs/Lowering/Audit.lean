import ThreeAddress.Proofs.Lowering.Mechanical
import ThreeAddress.Proofs.Lowering.Need

namespace ThreeAddress.Lowering

open Checked Code

def State.declared (s : State) : List VarId := (s.bound.map Prod.fst).reverse

def Env.context (env : Env) : Context := ⟨env.symbols, env.receiver.isSome⟩

/-- An action passes the points listed: it succeeds if every need is met, with a result of the given
kind, and its defect is that of the first need that is not met. -/
def Audits {α : Type} (context : Context) (x : Lower α) (points : List Point)
    (Q : α → Prop := fun _ ↦ True) : Prop :=
  ∀ s, match x s with
    | .ok a s' => s'.declared = s.declared ++ declaredAt points ∧
      Fulfilled context s.declared points ∧ Q a
    | .error (.defect d) _ => FailsFirst context s.declared points d
    | .error (.fault _) _ => True

namespace Audits

variable {α β : Type} {context : Context} {env : Env} {x : Lower α} {f : α → Lower β}
variable {ps qs : List Point} {Q : α → Prop} {R : β → Prop} {n : Need} {span : Span} {s : State}

theorem bind (hx : Audits context x ps Q) (hf : ∀ a, Q a → Audits context (f a) qs R) :
    Audits context (x >>= f) (ps ++ qs) R := by
  intro s
  have hs := hx s
  cases hr : x s with
  | error e s₁ =>
    rw [hr] at hs
    rw [bind_of_error hr]
    cases e with
    | defect d => exact hs.append_left
    | fault _ => trivial
  | ok a s₁ =>
    rw [hr] at hs
    obtain ⟨hd, hp, hq⟩ := hs
    have hfs := hf a hq s₁
    rw [bind_of_ok hr]
    rw [hd] at hfs
    cases hr₁ : f a s₁ with
    | ok b s₂ =>
      rw [hr₁] at hfs
      obtain ⟨hd₂, hp₂, hb⟩ := hfs
      exact ⟨by rw [hd₂, declaredAt_append, List.append_assoc], hp.append hp₂, hb⟩
    | error e s₂ =>
      rw [hr₁] at hfs
      cases e with
      | defect d => exact .append_right hp hfs
      | fault _ => trivial

theorem andThen (hx : Audits context x ps Q) (hf : ∀ a, Q a → Audits context (f a) [] R) :
    Audits context (x >>= f) ps R := by
  have h := hx.bind hf
  rwa [List.append_nil] at h

theorem before (hx : Audits context x [] Q) (hf : ∀ a, Q a → Audits context (f a) ps R) :
    Audits context (x >>= f) ps R := hx.bind hf

theorem mono {Q' : α → Prop} (hx : Audits context x ps Q) (h : ∀ a, Q a → Q' a) :
    Audits context x ps Q' := by
  intro s
  have hs := hx s
  split
  · rename_i a s' hr
    rw [hr] at hs
    exact ⟨hs.1, hs.2.1, h a hs.2.2⟩
  · rename_i d s' hr
    rw [hr] at hs
    exact hs
  · trivial

theorem weaken (hx : Audits context x ps Q) : Audits context x ps := hx.mono fun _ _ ↦ trivial

/-- A need that is met whatever was declared may be listed in front. -/
theorem met (h : ∀ declared, n.Met context declared)
    (hx : Audits context x ps Q) : Audits context x (.needs n span :: ps) Q := by
  have hn : Audits context (Pure.pure () : Lower Unit) [.needs n span] := fun s ↦
    ⟨by simp [declaredAt, Point.declares?], fulfilled_needs span (h _), trivial⟩
  exact hn.bind fun _ _ ↦ hx

theorem pure {a : α} (h : Q a) : Audits context (pure a : Lower α) [] Q := fun s ↦
  ⟨by simp [declaredAt], fulfilled_nil, h⟩

/-- An action that declares nothing and has no defect passes no point. -/
theorem quiet (h : ∀ s, match x s with
    | .ok a s' => s'.bound = s.bound ∧ Q a
    | .error (.defect _) _ => False
    | .error (.fault _) _ => True) : Audits context x [] Q := by
  intro s
  have hs := h s
  split
  · rename_i a s' hr
    rw [hr] at hs
    exact ⟨by simp [State.declared, hs.1, declaredAt], fulfilled_nil, hs.2⟩
  · rename_i d s' hr
    rw [hr] at hs
    exact hs.elim
  · trivial

theorem reject {kind : DefectKind}
    (h : ∀ declared, ¬ n.Met context declared)
    (hk : n.defect context.symbols = kind) :
    Audits context (reject kind span : Lower α) (.needs n span :: ps) Q := fun s ↦
  (hk ▸ failsFirst_needs span (h s.declared)).append_left

theorem lookUp {found : Option α} {kind : DefectKind}
    (h : ∀ declared, n.Met context declared ↔ found.isSome)
    (hk : n.defect context.symbols = kind) :
    Audits context (lookUp found kind span) [.needs n span] fun a ↦ found = some a := by
  cases found with
  | some a => exact met (fun D ↦ (h D).mpr rfl) (pure rfl)
  | none => exact reject (fun D hn ↦ by simpa using (h D).mp hn) hk

theorem findClass (c : ClassId) :
    Audits env.context (env.findClass c span) [.needs (.classSymbol c) span] := by
  rw [Env.findClass_eq]
  exact weaken (lookUp (fun _ ↦ Iff.rfl) rfl)

theorem findMethod (m : MethodId) :
    Audits env.context (env.findMethod m span) [.needs (.method m) span]
    fun symbol ↦ env.symbols.method? m = some symbol := by
  rw [Env.findMethod_eq]
  exact lookUp (fun _ ↦ Iff.rfl) rfl

theorem findVar (v : VarId) :
    Audits env.context (env.findVar v span) [.needs (.variable v) span] := by
  rw [Env.findVar_eq]
  exact weaken (lookUp (fun _ ↦ Iff.rfl) rfl)

theorem findReceiver : Audits env.context (env.findReceiver span) [.needs .receiver span] := by
  rw [Env.findReceiver_eq]
  exact weaken (lookUp (fun _ ↦ Iff.rfl) rfl)

theorem mem_declared {v : VarId} : v ∈ s.declared ↔ s.bound.lookup v ≠ none := by
  rw [ne_eq, List.lookup_eq_none_iff, State.declared, List.mem_reverse, List.mem_map]
  constructor
  · rintro ⟨d, hd, rfl⟩ h
    simpa using h d hd
  · intro h
    push Not at h
    obtain ⟨d, hd, he⟩ := h
    exact ⟨d, hd, (by simpa using he : v = d.1).symm⟩

theorem findTemp (v : VarId) :
    Audits env.context (env.findTemp v span) [.needs (.declared v) span] := by
  intro s
  cases hl : s.bound.lookup v with
  | some t =>
    rw [Env.findTemp_of_some hl]
    exact ⟨by simp [declaredAt, Point.declares?],
      fulfilled_needs span (mem_declared.mpr (by simp [hl])),
      trivial⟩
  | none =>
    have hn : ¬ Need.Met env.context s.declared (.declared v) := fun hm ↦ mem_declared.mp hm hl
    have hfail := failsFirst_needs span hn
    rw [Env.findTemp_of_none hl, Env.findVar_eq]
    cases hv : env.symbols.var? v with
    | none =>
      simp only [Need.defect, Env.context, hv] at hfail
      exact hfail
    | some symbol =>
      simp only [Need.defect, Env.context, hv] at hfail
      exact hfail

theorem declare (v : VarId) : Audits context (declare v) [.declares v] := fun s ↦
  ⟨by simp [State.declared, declaredAt, Point.declares?], fulfilled_declares v, trivial⟩

theorem step {g : Generator → α × Generator} (h : ∀ s, Q (g s).1) : Audits context (step g) [] Q :=
  quiet fun s ↦ ⟨rfl, h s.generator⟩

theorem compute (instr : Temp → Instr) : Audits context (compute instr) [] := step fun _ ↦ trivial

theorem append (i : Instr) : Audits context (append i) [] := step fun _ ↦ trivial

theorem pass (t : Temp) : Audits context (pass t) [] := step fun _ ↦ trivial

theorem freshTemp : Audits context freshTemp [] := step fun _ ↦ trivial

theorem freshLabel (stem : String) : Audits context (freshLabel stem) [] := step fun _ ↦ trivial

theorem call {instr : Option Temp → Instr} (type : DataType) (hi : ∀ d, (instr d).label? = none) :
    Audits context (call instr type) [] fun result ↦ result = none ↔ type.isVoid :=
  step fun g ↦ (call_emission (s := { generator := g }) g instr hi rfl).2

theorem attempt {g : Generator → Except Fault (α × Generator)}
    (h : ∀ s a s', attempt g s = .ok a s' → Q a) : Audits context (attempt g) [] Q := by
  refine quiet fun s ↦ ?_
  cases hg : g s.generator with
  | error e =>
    rw [attempt_of_error hg]
    trivial
  | ok r =>
    have hr := attempt_of_ok (a := r.1) (g := r.2) hg
    have hq := h _ _ _ hr
    rw [hr]
    exact ⟨rfl, hq⟩

theorem place (l : Label) : Audits context (place l) [] := attempt fun _ _ _ _ ↦ trivial

theorem callRoutine (r : Routine) :
    Audits context (callRoutine r) [] fun result ↦ result = none ↔ r.result.isVoid :=
  attempt fun _ _ _ h ↦ (callRoutine_ok h).2

theorem of_mechanical (h : Mechanical x) : Audits context x [] := by
  induction h with
  | pure a => exact pure trivial
  | bind _ _ ihx ihf => exact ihx.before fun a _ ↦ ihf a
  | freshTemp => exact freshTemp
  | freshLabel stem => exact freshLabel stem
  | append _ => exact append _
  | pass t => exact pass t
  | callRoutine r => exact weaken (callRoutine r)
  | place l => exact place l

theorem demand_some {result : Option Temp} (h : result ≠ none) :
    Audits context (demand result span) [] := by
  obtain ⟨t, rfl⟩ := Option.ne_none_iff_exists'.mp h
  exact pure trivial

theorem routineResult {r : Routine} (hr : r.result.isVoid = false) {f : Temp → Lower α}
    (hf : ∀ t, Audits context (f t) ps Q) :
    Audits context (Lowering.callRoutine r >>= fun result ↦ demand result span >>= f) ps Q :=
  (callRoutine r).before fun _ h ↦ (demand_some (by simp [h, hr])).before fun t _ ↦ hf t

theorem forM {γ : Type} {f : γ → Lower Unit} {points : γ → List Point}
    (hf : ∀ c, Audits context (f c) (points c)) (cs : List γ) :
    Audits context (cs.forM f) (cs.flatMap points) := by
  induction cs with
  | nil => exact pure trivial
  | cons c cs ih => exact (hf c).bind fun _ _ ↦ ih

theorem forM_quiet {γ : Type} {f : γ → Lower Unit} (hf : ∀ c, Audits context (f c) [])
    (cs : List γ) :
    Audits context (cs.forM f) [] := by
  have h := forM hf cs
  rwa [List.flatMap_eq_nil_iff.mpr fun _ _ ↦ rfl] at h

theorem compareStrings (op : BinaryOp) (left right : Temp) :
    Audits context (compareStrings op left right span) [] := by
  refine (pass _).before fun _ _ ↦ (pass _).before fun _ _ ↦ routineResult rfl fun equal ↦ ?_
  split
  · exact compute _
  · exact pure trivial

theorem applyOp (op : BinaryOp) (leftType rightType : DataType) (left right : Temp) :
    Audits context (applyOp op leftType rightType left right span) [] := by
  unfold Lowering.applyOp
  split
  · exact (of_mechanical (.guardDivisor right)).before fun _ _ ↦ compute _
  · exact (of_mechanical (.guardDivisor right)).before fun _ _ ↦ compute _
  · split
    · exact compareStrings _ left right
    · exact compute _
  · split
    · exact compareStrings _ left right
    · exact compute _
  · exact compute _

theorem callMethod (method : MethodSymbol) (receiver : Option Temp) (args : List Temp) :
    Audits context (callMethod method receiver args) []
      fun result ↦ result = none ↔ method.returnType.isVoid := by
  refine (forM_quiet pass _).before fun _ _ ↦ ?_
  cases receiver with
  | none => exact call _ fun _ ↦ rfl
  | some receiver =>
    exact (compute _).before fun _ _ ↦ (compute _).before fun _ _ ↦ call _ fun _ ↦ rfl

theorem cloneObject (object : Temp) (c : ClassId) :
    Audits env.context (cloneObject env object c span) [.needs (.classSymbol c) span] :=
  (findClass c).andThen fun _ _ ↦ (compute _).before fun _ _ ↦ (pass _).before fun _ _ ↦
    routineResult rfl fun _ ↦
    (forM_quiet (fun _ ↦ (compute _).before fun _ _ ↦ append _) _).before fun _ _ ↦
    (compute _).before fun _ _ ↦ (append _).before fun _ _ ↦ pure trivial

theorem cloneIfObject (t : Temp) (type : DataType) :
    Audits env.context (cloneIfObject env t type span)
      (type.class?.toList.map fun c ↦ .needs (.classSymbol c) span) := by
  unfold Lowering.cloneIfObject
  cases type.class? with
  | some c => exact cloneObject t c
  | none => exact pure trivial

theorem fillArray (element count : Temp) (type : DataType) :
    Audits env.context (fillArray env element count type span)
      (type.class?.toList.map fun c ↦ .needs (.classSymbol c) span) :=
  (of_mechanical (.openFill count)).before fun loop _ ↦
    (cloneIfObject element type).andThen fun stored _ ↦
    (of_mechanical (.storeElement loop stored)).before fun _ _ ↦ pure trivial

theorem demand {m : MethodId} {symbol : MethodSymbol} {result : Option Temp}
    (hm : context.symbols.method? m = some symbol) (h : result = none ↔ symbol.returnType.isVoid) :
    Audits context (demand result span) [.needs (.result m) span] := by
  have hv : symbol.returnType.isVoid ↔ symbol.returnType = .void := by
    cases symbol.returnType <;> simp [DataType.isVoid]
  rw [demand_eq]
  refine weaken (lookUp (fun D ↦ ?_) rfl)
  simp only [Need.Met, hm, Option.some.injEq, forall_eq', ← hv, ne_eq, ← h]
  cases result <;> simp

end Audits

end ThreeAddress.Lowering

namespace ThreeAddress.Checked

open Code Lowering

variable {env : Env}

mutual

theorem Expr.audits : (e : Expr) → Audits env.context (e.lower env) e.points
  | .mk (.literal l) _ _ _ => .of_mechanical (.literal l)
  | .mk .null _ _ _ => .of_mechanical (.constant 0)
  | .mk .this _ _ _ => .findReceiver
  | .mk .readInteger _ _ _ => (Audits.callRoutine .readInt).bind fun _ h ↦
    .demand_some (by simp [h, Routine.result, DataType.isVoid])
  | .mk .readLine _ _ _ => (Audits.callRoutine .readLine).bind fun _ h ↦
    .demand_some (by simp [h, Routine.result, DataType.isVoid])
  | .mk (.ident owner symbol) _ .memberVar span =>
    (Expr.auditsOwner span owner).bind fun _ _ ↦ (Audits.findVar symbol).bind fun _ _ ↦ .compute _
  | .mk (.ident _ symbol) _ .localVar _ => .findTemp symbol
  | .mk (.ident _ symbol) _ .paramVar _ => .findTemp symbol
  | .mk (.ident _ symbol) _ .notLValue _ => .findTemp symbol
  | .mk (.ident _ symbol) _ .arrayElement _ => .reject (fun _ h ↦ h) rfl
  | .mk (.indexed array index) _ _ _ =>
    array.audits.bind fun a _ ↦ index.audits.andThen fun i _ ↦
      (Audits.of_mechanical (.checkedAddress a i)).bind fun _ _ ↦ .compute _
  | .mk (.call c) _ _ span => (c.audits span).bind fun _ ⟨_, hm, h⟩ ↦ .demand hm h
  | .mk (.arrayLength array) _ _ _ => array.audits.andThen fun a _ ↦ .of_mechanical (.loadLength a)
  | .mk (.binary op left right) _ _ _ =>
    left.audits.bind fun l _ ↦ right.audits.andThen fun r _ ↦ .applyOp op _ _ l r
  | .mk (.unary _ operand) _ _ _ => operand.audits.andThen fun _ _ ↦ .compute _
  | .mk (.newClass c) _ _ _ =>
    (Audits.findClass c).bind fun _ _ ↦ (Audits.call (.object c) fun _ ↦ rfl).bind fun _ h ↦
      .demand_some (by simp [h, DataType.isVoid])
  | .mk (.newArray _ length) _ _ _ => length.audits.andThen fun _ _ ↦ .compute _
  | .mk (.instanceOf object c) _ _ _ =>
    object.audits.bind fun _ _ ↦ (Audits.findClass c).bind fun _ _ ↦ .compute _
  | .mk (.cast object c) _ _ _ => by
    refine object.audits.bind fun t _ ↦ (Audits.findClass c).bind fun _ _ ↦ ?_
    split
    · exact (Audits.append _).bind fun _ _ ↦ .pure trivial
    · exact .pure trivial
  | .mk (.shallowCopy source) _ _ _ => by
    rw [Expr.lower, Expr.points]
    cases hs : source.type with
    | object c =>
      exact .met (fun _ ↦ ⟨c, rfl⟩) (source.audits.bind fun t _ ↦ .cloneObject t c)
    | _ => exact .reject (by simp [Need.Met]) rfl
  | .mk (.newSameArray element count) _ _ _ =>
    element.audits.bind fun t _ ↦ count.audits.bind fun n _ ↦ .fillArray t n _
  | .mk (.defaultIndex array index fallback) _ _ _ =>
    array.audits.bind fun a _ ↦ index.audits.bind fun i _ ↦ fallback.audits.andThen fun d _ ↦
      .of_mechanical (.readOr a i d)
  | .mk (.varBinding symbol) _ _ _ => .declare symbol

theorem Expr.auditsOwner (span : Span) : (owner : Option Expr) →
    Audits env.context (Expr.lowerOwner env span owner) (Expr.pointsOwner span owner)
  | some owner => owner.audits
  | none => .findReceiver

theorem Call.audits (span : Span) : (c : Call) →
    Audits env.context (c.lower env span) (c.points span) fun result ↦
      ∃ symbol, env.symbols.method? c.method = some symbol ∧
        (result = none ↔ symbol.returnType.isVoid)
  | .mk receiver method args =>
    (Audits.findMethod method).bind fun symbol hm ↦ (Expr.auditsOption receiver).bind fun r _ ↦
      (Expr.auditsAll args).andThen fun ts _ ↦
      (Audits.callMethod symbol r ts).mono fun _ h ↦ ⟨symbol, hm, h⟩

theorem Expr.auditsOption : (e : Option Expr) →
    Audits env.context (Expr.lowerOption env e) (Expr.pointsOption e)
  | some e => e.audits.andThen fun _ _ ↦ .pure trivial
  | none => .pure trivial

theorem Expr.auditsAll : (es : List Expr) →
    Audits env.context (Expr.lowerAll env es) (Expr.pointsAll es)
  | [] => .pure trivial
  | e :: es => e.audits.bind fun _ _ ↦ (Expr.auditsAll es).andThen fun _ _ ↦ .pure trivial

end

theorem Expr.auditsEffects (e : Expr) :
    Audits env.context (e.lowerEffects env) e.pointsEffects := by
  obtain ⟨kind, type, lvalue, span⟩ := e
  cases kind with
  | call c => exact (c.audits span).andThen fun _ _ ↦ .pure trivial
  | _ => exact (Expr.audits _).andThen fun _ _ ↦ .pure trivial

theorem Expr.auditsTarget (target : Expr) (t : Temp) :
    Audits env.context (target.lowerTarget env t) target.pointsTarget := by
  -- the two definitions are opened one after the other, as each has a last case for all the rest
  unfold Expr.lowerTarget
  split
  · rename_i hl hk
    rw [Expr.pointsTarget, hl, hk]
    exact (Expr.audits _).bind fun a _ ↦ (Expr.audits _).andThen fun i _ ↦
      (Audits.of_mechanical (.checkedAddress a i)).before fun _ _ ↦ .append _
  · rename_i hl hk
    rw [Expr.pointsTarget, hl, hk]
    exact (Expr.auditsOwner _ _).bind fun _ _ ↦ (Audits.findVar _).andThen fun _ _ ↦ .append _
  · rename_i hl hk
    rw [Expr.pointsTarget, hl, hk]
    exact (Audits.findTemp _).andThen fun _ _ ↦ .append _
  · rename_i hl hk
    rw [Expr.pointsTarget, hl, hk]
    exact (Audits.findTemp _).andThen fun _ _ ↦ .append _
  · rename_i hl hk
    rw [Expr.pointsTarget, hl, hk]
    exact (Audits.declare _).andThen fun _ _ ↦ .append _
  · rename_i hindexed hmember hlocal hparam hbinding
    unfold Expr.pointsTarget
    split
    · exact (hindexed _ _ ‹_› ‹_›).elim
    · exact (hmember _ _ ‹_› ‹_›).elim
    · exact (hlocal _ _ ‹_› ‹_›).elim
    · exact (hparam _ _ ‹_› ‹_›).elim
    · exact (hbinding _ ‹_› ‹_›).elim
    · exact .reject (fun _ h ↦ h) rfl

theorem Expr.auditsPrint (e : Expr) : Audits env.context (e.lowerPrint env) e.pointsPrint := by
  unfold Expr.lowerPrint Expr.pointsPrint
  refine e.audits.bind fun t _ ↦ ?_
  have hprint (r : Routine) {type : DataType} (h : type = .int ∨ type = .bool ∨ type = .string) :
      Audits env.context (do pass t; let _ ← callRoutine r) [.needs (.printer type) e.span] :=
    .met (fun _ ↦ h) ((Audits.pass t).before fun _ _ ↦ (Audits.callRoutine r).before fun _ _ ↦
      .pure trivial)
  cases e.type with
  | int => exact hprint .printInt (.inl rfl)
  | bool => exact hprint .printBool (.inr (.inl rfl))
  | string => exact hprint .printString (.inr (.inr rfl))
  | _ => exact .reject (by simp [Need.Met]) rfl

theorem Expr.auditsGuard (exit : Label) (guard : Option Expr) :
    Audits env.context (Expr.lowerGuard env exit guard) (Expr.pointsOption guard) := by
  cases guard with
  | none => exact .pure trivial
  | some guard => exact guard.audits.andThen fun _ _ ↦ .append _

mutual

theorem Stmt.audits (exit : Option Label) : (stmt : Stmt) →
    Audits env.context (stmt.lower env exit) (stmt.points exit.isSome)
  | .mk (.varDef v) _ => (Audits.declare v).andThen fun _ _ ↦ .pure trivial
  | .mk (.block statements) _ => Stmt.auditsAll exit statements
  | .mk (.exec e) _ => e.auditsEffects
  | .mk (.assign target source) _ => source.audits.bind fun t _ ↦ target.auditsTarget t
  | .mk (.cond condition thenBranch (some elseBranch)) _ =>
    condition.audits.bind fun _ _ ↦ (Audits.freshLabel _).before fun _ _ ↦
      (Audits.freshLabel _).before fun _ _ ↦ (Audits.append _).before fun _ _ ↦
      (thenBranch.audits exit).bind fun _ _ ↦ (Audits.append _).before fun _ _ ↦
      (Audits.place _).before fun _ _ ↦ (elseBranch.audits exit).andThen fun _ _ ↦ .place _
  | .mk (.cond condition thenBranch none) _ =>
    condition.audits.bind fun _ _ ↦ (Audits.freshLabel _).before fun _ _ ↦
      (Audits.append _).before fun _ _ ↦ (thenBranch.audits exit).bind fun _ _ ↦ .place _
  | .mk (.whileLoop condition body) _ =>
    (Audits.freshLabel _).before fun _ _ ↦ (Audits.place _).before fun _ _ ↦
      condition.audits.bind fun _ _ ↦ (Audits.freshLabel _).before fun leave _ ↦
      (Audits.append _).before fun _ _ ↦ (body.audits (some leave)).andThen fun _ _ ↦
      .of_mechanical (.closeLoop _ leave)
  | .mk (.forLoop init condition update body) _ =>
    (Stmt.auditsOption exit init).bind fun _ _ ↦ (Audits.freshLabel _).before fun _ _ ↦
      (Audits.freshLabel _).before fun _ _ ↦ (Audits.append _).before fun _ _ ↦
      (Audits.place _).before fun _ _ ↦ (Stmt.auditsOption exit update).bind fun _ _ ↦
      (Audits.place _).before fun _ _ ↦ condition.audits.bind fun _ _ ↦
      (Audits.freshLabel _).before fun leave _ ↦ (Audits.append _).before fun _ _ ↦
      (body.audits (some leave)).andThen fun _ _ ↦ .of_mechanical (.closeLoop _ leave)
  | .mk (.forEach binding array guard body) _ =>
    (Audits.declare binding).bind fun element _ ↦ array.audits.bind fun a _ ↦
      (Audits.of_mechanical (.openEach element a)).before fun loop _ ↦
      (Expr.auditsGuard loop.leave guard).bind fun _ _ ↦
      (Audits.of_mechanical (.advance loop)).before fun _ _ ↦
      (body.audits (some loop.leave)).andThen fun _ _ ↦
      .of_mechanical (.closeLoop loop.again loop.leave)
  | .mk (.ret e) _ => (Expr.auditsOption e).andThen fun _ _ ↦ .append _
  | .mk .leave span => by
    cases exit with
    | none => exact .reject (by simp [Need.Met]) rfl
    | some l => exact .met (fun _ ↦ rfl) (.append _)
  | .mk (.print args) _ => .forM (fun e ↦ e.auditsPrint) args
  | .mk (.guarded alternatives last) _ =>
    (Branch.auditsAll exit alternatives).bind fun _ _ ↦ last.audits exit _

theorem Stmt.auditsOption (exit : Option Label) : (stmt : Option Stmt) →
    Audits env.context (Stmt.lowerOption env exit stmt) (Stmt.pointsOption exit.isSome stmt)
  | none => .pure trivial
  | some stmt => stmt.audits exit

theorem Stmt.auditsAll (exit : Option Label) : (statements : List Stmt) →
    Audits env.context (Stmt.lowerAll env exit statements) (Stmt.pointsAll exit.isSome statements)
  | [] => .pure trivial
  | stmt :: rest => (stmt.audits exit).bind fun _ _ ↦ Stmt.auditsAll exit rest

theorem Branch.audits (exit : Option Label) (stem : String) : (b : Branch) →
    Audits env.context (b.lower env exit stem) (b.points exit.isSome)
  | .mk guard body =>
    guard.audits.bind fun _ _ ↦ (Audits.freshLabel _).before fun _ _ ↦
      (Audits.append _).before fun _ _ ↦ (body.audits exit).andThen fun _ _ ↦ .place _

theorem Branch.auditsAll (exit : Option Label) : (bs : List Branch) →
    Audits env.context (Branch.lowerAll env exit bs) (Branch.pointsAll exit.isSome bs)
  | [] => .pure trivial
  | b :: rest => (b.audits exit _).bind fun _ _ ↦ Branch.auditsAll exit rest

end

end ThreeAddress.Checked
