import ThreeAddress.Proofs.Control.Coverage
import ThreeAddress.Proofs.Lowering.Audit
import ThreeAddress.Proofs.Lowering.Orderly

namespace ThreeAddress.Lowering

open Checked Code

/-- A variable gets a temporary; a variable is assigned to; a loop over an array puts an element
into its variable, which was declared before the last `since` declarations. -/
inductive VarStep where
  | declare (v : VarId)
  | assign (v : VarId)
  | element (v : VarId) (since : Nat)
deriving DecidableEq

/-- Steps from some bindings to others, and the temporaries that they write. An assignment writes
the temporary that the variable is bound to at that point, and a loop the one that it has declared.
-/
inductive Follows : List VarStep → List (VarId × Temp) → List Temp → List (VarId × Temp) → Prop
  | done {bound : List (VarId × Temp)} : Follows [] bound [] bound
  | declare {v : VarId} {t : Temp} {steps : List VarStep} {bound bound' : List (VarId × Temp)}
      {writes : List Temp} (h : Follows steps ((v, t) :: bound) writes bound') :
      Follows (.declare v :: steps) bound writes bound'
  | assign {v : VarId} {t : Temp} {steps : List VarStep} {bound bound' : List (VarId × Temp)}
      {writes : List Temp} (hv : bound.lookup v = some t) (h : Follows steps bound writes bound') :
      Follows (.assign v :: steps) bound (t :: writes) bound'
  | element {v : VarId} {since : Nat} {t : Temp} {steps : List VarStep}
      {bound bound' : List (VarId × Temp)} {writes : List Temp}
      (hv : bound[since]? = some (v, t)) (h : Follows steps bound writes bound') :
      Follows (.element v since :: steps) bound (t :: writes) bound'

def declares (points : List Point) : List VarStep := (declaredAt points).map .declare

theorem declares_append (ps qs : List Point) :
    declares (ps ++ qs) = declares ps ++ declares qs := by
  rw [declares, declaredAt_append, List.map_append]
  rfl

end ThreeAddress.Lowering

namespace ThreeAddress.Checked

open Lowering

def Expr.stepsTarget (target : Expr) : List VarStep :=
  match target.lvalue, target.kind with
  | .localVar, .ident _ symbol | .paramVar, .ident _ symbol => [.assign symbol]
  | .localVar, .varBinding symbol => [.declare symbol, .assign symbol]
  | _, _ => declares target.pointsTarget

mutual

def Stmt.steps : Stmt → List VarStep
  | .mk kind _ =>
    match kind with
    | .varDef symbol => [.declare symbol]
    | .block statements => Stmt.stepsAll statements
    | .exec e => declares e.pointsEffects
    | .assign target source => declares source.points ++ target.stepsTarget
    | .cond condition thenBranch elseBranch =>
      declares condition.points ++ (thenBranch.steps ++ Stmt.stepsOption elseBranch)
    | .whileLoop condition body => declares condition.points ++ body.steps
    | .forLoop init condition update body =>
      Stmt.stepsOption init ++ (Stmt.stepsOption update ++
        (declares condition.points ++ body.steps))
    | .forEach binding array guard body =>
      .declare binding :: (declares array.points ++
        .element binding (declaredAt array.points).length ::
          (declares (Expr.pointsOption guard) ++ body.steps))
    | .ret value => declares (Expr.pointsOption value)
    | .leave => []
    | .print args => declares (args.flatMap Expr.pointsPrint)
    | .guarded alternatives last => Branch.stepsAll alternatives ++ last.steps

def Stmt.stepsOption : Option Stmt → List VarStep
  | none => []
  | some s => s.steps

def Stmt.stepsAll : List Stmt → List VarStep
  | [] => []
  | s :: rest => s.steps ++ Stmt.stepsAll rest

def Branch.steps : Branch → List VarStep
  | .mk guard body => declares guard.points ++ body.steps

def Branch.stepsAll : List Branch → List VarStep
  | [] => []
  | b :: rest => b.steps ++ Branch.stepsAll rest

end

end ThreeAddress.Checked

namespace ThreeAddress.Lowering

open Checked Code

variable {α β : Type} {s s₁ s' : State} {t : Temp} {env : Env} {span : Span}
variable {new new₁ new₂ : List Instr} {ts ts₁ ts₂ vars plain : List Temp}
variable {steps steps₁ steps₂ : List VarStep} {bound bound₁ bound₂ : List (VarId × Temp)}

namespace Follows

variable {writes writes₁ writes₂ : List Temp}

theorem append (h₁ : Follows steps₁ bound writes₁ bound₁)
    (h₂ : Follows steps₂ bound₁ writes₂ bound₂) :
    Follows (steps₁ ++ steps₂) bound (writes₁ ++ writes₂) bound₂ := by
  induction h₁ with
  | done => exact h₂
  | declare _ ih => exact .declare (ih h₂)
  | assign hv _ ih => exact .assign hv (ih h₂)
  | element hv _ ih => exact .element hv (ih h₂)

theorem declared (added bound : List (VarId × Temp)) :
    Follows ((added.map Prod.fst).reverse.map .declare) bound [] (added ++ bound) := by
  induction added with
  | nil => exact .done
  | cons d added ih =>
    rw [List.map_cons, List.reverse_cons, List.map_append]
    exact ih.append (.declare .done)

end Follows

/-- The list holds the temporaries of the variables that are bound in the first state, and of those
issued on the way to the second it holds the temporaries of the variables declared meanwhile. -/
structure Marks (vars : List Temp) (s s' : State) : Prop where
  bound : ∀ d ∈ s.bound, d.2 ∈ vars
  issued : ∀ declared, s'.bound = declared ++ s.bound → ∀ t, IssuedTemp s t s' →
    (t ∈ vars ↔ t ∈ declared.map Prod.snd)

namespace Marks

theorem first (h : Marks vars s s') (e₂ : Emission s₁ s' new₂ ts₂) : Marks vars s s₁ := by
  refine ⟨h.bound, fun declared hb t ht ↦ ?_⟩
  obtain ⟨later, hl, hi⟩ := e₂.bound_eq
  have hnot : t ∉ later.map Prod.snd := by
    intro hm
    obtain ⟨d, hd, rfl⟩ := List.mem_map.mp hm
    exact absurd (hi d hd).1.1 (not_lt.mpr ht.2)
  have hvars := h.issued (later ++ declared) (by rw [hl, hb, List.append_assoc]) t
    ⟨ht.1, ht.2.trans e₂.temps_le⟩
  rw [hvars, List.map_append, List.mem_append, or_iff_right hnot]

theorem second (h : Marks vars s s') (e₁ : Emission s s₁ new₁ ts₁) (e₂ : Emission s₁ s' new₂ ts₂) :
    Marks vars s₁ s' := by
  obtain ⟨earlier, hb, hi⟩ := e₁.bound_eq
  refine ⟨fun d hd ↦ ?_, fun declared hl t ht ↦ ?_⟩
  · rw [hb] at hd
    rcases List.mem_append.mp hd with hd | hd
    · have hvars := (h.first e₂).issued earlier hb d.2 (hi d hd).1
      exact hvars.mpr (List.mem_map_of_mem hd)
    · exact h.bound d hd
  · have hnot : t ∉ earlier.map Prod.snd := by
      intro hm
      obtain ⟨d, hd, rfl⟩ := List.mem_map.mp hm
      exact absurd (hi d hd).1.2 (not_le.mpr ht.1)
    have hvars := h.issued (declared ++ earlier) (by rw [hl, hb, List.append_assoc]) t
      ⟨e₁.temps_le.trans_lt ht.1, ht.2⟩
    rw [hvars, List.map_append, List.mem_append, or_iff_left hnot]

theorem not_mem (h : Marks vars s s') (e : Emission s s' new ts) (ht : t ∈ ts) : t ∉ vars := by
  obtain ⟨declared, hb, hi⟩ := e.bound_eq
  intro hm
  have hdeclared := (h.issued declared hb t (e.issued ht)).mp hm
  obtain ⟨d, hd, rfl⟩ := List.mem_map.mp hdeclared
  exact (hi d hd).2 ht

end Marks

theorem filter_eq_nil (h : ∀ t ∈ ts, t ∉ vars) : ts.filter (· ∈ vars) = [] :=
  List.filter_eq_nil_iff.mpr fun t ht ↦ by simpa using h t ht

/-- The variables that an audited action has bound are those declared at its points. -/
theorem Audits.declared_names {x : Lower α} {context : Context} {points : List Point}
    {Q : α → Prop} {a : α} {added : List (VarId × Temp)} (ha : Audits context x points Q)
    (h : x s = .ok a s') (hb : s'.bound = added ++ s.bound) :
    (added.map Prod.fst).reverse = declaredAt points := by
  have hs := ha s
  rw [h] at hs
  have hdeclared := hs.1
  rw [State.declared, State.declared, hb, List.map_append, List.reverse_append] at hdeclared
  exact List.append_cancel_left hdeclared

/-- The copies into variables that an action emits follow the steps. The temporaries `plain` are
known to belong to no variable. -/
def Traces (plain : List Temp) (x : Lower α) (steps : List VarStep) : Prop :=
  ∀ ⦃s a s'⦄, x s = .ok a s' → ∃ new ts, Orderly s s' new ts ∧
    ∀ vars : List Temp, (∀ t ∈ plain, t ∉ vars) → Marks vars s s' →
      Follows steps s.bound ((copied new).filter (· ∈ vars)) s'.bound

namespace Traces

theorem bind {x : Lower α} {f : α → Lower β} (hx : Traces plain x steps₁)
    (hf : ∀ a, Traces plain (f a) steps₂) : Traces plain (x >>= f) (steps₁ ++ steps₂) := by
  intro s b s' h
  obtain ⟨a, s₁, ha, hb⟩ := bind_ok_iff.mp h
  obtain ⟨new₁, ts₁, o₁, h₁⟩ := hx ha
  obtain ⟨new₂, ts₂, o₂, h₂⟩ := hf a hb
  refine ⟨_, _, o₁.append o₂, fun vars hp hm ↦ ?_⟩
  rw [copied_append, List.filter_append]
  exact (h₁ vars hp (hm.first o₂.toEmission)).append
    (h₂ vars hp (hm.second o₁.toEmission o₂.toEmission))

theorem andThen {x : Lower α} {f : α → Lower β} (hx : Traces plain x steps)
    (hf : ∀ a, Traces plain (f a) []) : Traces plain (x >>= f) steps := by
  have h := hx.bind hf
  rwa [List.append_nil] at h

theorem before {x : Lower α} {f : α → Lower β} (hx : Traces plain x [])
    (hf : ∀ a, Traces plain (f a) steps) : Traces plain (x >>= f) steps := hx.bind hf

theorem of_quiet {x : Lower α} {context : Context} {points : List Point} {Q : α → Prop}
    (hx : Quiet x) (ha : Audits context x points Q) : Traces plain x (declares points) := by
  intro s a s' h
  obtain ⟨new, ts, o, hc⟩ := hx h
  refine ⟨new, ts, o, fun vars _ hm ↦ ?_⟩
  rw [filter_eq_nil fun t ht ↦ hm.not_mem o.toEmission (hc ht)]
  obtain ⟨added, hb, -⟩ := o.declared_ascending
  rw [declares, ← ha.declared_names h hb, hb]
  exact .declared added s.bound

/-- An action that declares nothing and copies into temporaries of its own or into plain ones. -/
theorem piece {x : Lower α} (hb : Bindless x)
    (h : ∀ ⦃s a s'⦄, x s = .ok a s' → ∃ code ts, Emission s s' code ts ∧
      (results code).Sublist ts ∧ ∀ t ∈ copied code, t ∈ ts ∨ t ∈ plain) : Traces plain x [] := by
  intro s a s' ha
  obtain ⟨code, ts, e, hr, hc⟩ := h ha
  refine ⟨code, ts, .of_bound_eq e hr (hb ha), fun vars hp hm ↦ ?_⟩
  have hnot (t : Temp) (ht : t ∈ copied code) : t ∉ vars := by
    rcases hc t ht with ht | ht
    · exact hm.not_mem e ht
    · exact hp t ht
  rw [filter_eq_nil hnot, hb ha]
  exact .done

theorem of_piece {x : Lower α} (hb : Bindless x) (hx : Quiet x) : Traces plain x [] := by
  refine piece hb fun s a s' h ↦ ?_
  obtain ⟨new, ts, o, hc⟩ := hx h
  exact ⟨new, ts, o.toEmission, o.results_sublist, fun t ht ↦ .inl (hc ht)⟩

theorem pure (a : α) : Traces plain (pure a : Lower α) [] := of_piece (.pure a) (.pure a)

theorem freshLabel (stem : String) : Traces plain (freshLabel stem) [] :=
  of_piece (.step _) (.freshLabel stem)

theorem place (l : Label) : Traces plain (place l) [] := of_piece (.attempt _) (.place l)

theorem append {i : Instr} (hl : i.label? = none) (hd : i.dst? = none) :
    Traces plain (append i) [] := of_piece (.step _) (.append hl hd)

theorem operate (op : BinaryOp) (left right : Temp) : Traces plain (operate op left right) [] :=
  of_piece (.compute _) (.operate op left right)

theorem copy {dst : Temp} (src : Temp) (h : dst ∈ plain) :
    Traces plain (Lowering.append (.copy dst src)) [] := by
  refine piece (.step _) fun s a s' ha ↦ ⟨_, [], append_ok rfl ha, ?_, ?_⟩
  · simp [Instr.result?]
  · simpa [Instr.copied?] using h

theorem advance {loop : ArrayLoop} (h : loop.cursor ∈ plain) : Traces plain loop.advance [] :=
  (operate _ _ _).before fun next ↦ (copy next h).before fun _ ↦ .pure next

theorem closeLoop (again leave : Label) : Traces plain (closeLoop again leave) [] :=
  (append rfl rfl).before fun _ ↦ .place leave

theorem declare (v : VarId) : Traces plain (declare v) [.declare v] := by
  intro s t s' h
  obtain ⟨new, ts, o, hc⟩ := Quiet.declare v h
  refine ⟨new, ts, o, fun vars _ hm ↦ ?_⟩
  rw [filter_eq_nil fun t ht ↦ hm.not_mem o.toEmission (hc ht), (declare_ok h).2.2]
  exact .declare .done

theorem assign {v : VarId} (value : Temp) :
    Traces plain (env.findTemp v span >>= fun place ↦ Lowering.append (.copy place value))
      [.assign v] := by
  intro s u s' h
  obtain ⟨place, s₁, hf, ha⟩ := bind_ok_iff.mp h
  obtain ⟨hv, rfl⟩ := Env.findTemp_ok hf
  have e := append_ok rfl ha
  have hb : s'.bound = s₁.bound := Bindless.step _ ha
  refine ⟨_, [], .of_bound_eq e (by simp [Instr.result?]) hb, fun vars _ hm ↦ ?_⟩
  obtain ⟨before, behind, hmem, -⟩ := List.lookup_eq_some_iff.mp hv
  have hvars : place ∈ vars := hm.bound (v, place) (by simp [hmem])
  rw [hb]
  simpa [Instr.copied?, hvars] using Follows.assign hv .done

theorem bindAssign {v : VarId} (value : Temp) :
    Traces plain (Lowering.declare v >>= fun place ↦ Lowering.append (.copy place value))
      [.declare v, .assign v] := by
  intro s u s' h
  obtain ⟨place, s₁, hd, ha⟩ := bind_ok_iff.mp h
  obtain ⟨new, ts, o, hc⟩ := Quiet.declare v hd
  have e := append_ok rfl ha
  have hb : s'.bound = s₁.bound := Bindless.step _ ha
  have o₂ : Orderly s₁ s' [.copy place value] [] := .of_bound_eq e (by simp [Instr.result?]) hb
  refine ⟨_, _, o.append o₂, fun vars _ hm ↦ ?_⟩
  have hbound := (declare_ok hd).2.2
  have hvars : place ∈ vars := (hm.second o.toEmission e).bound (v, place) (by simp [hbound])
  have hnil : (copied new).filter (· ∈ vars) = [] :=
    filter_eq_nil fun t ht ↦ (hm.first e).not_mem o.toEmission (hc ht)
  rw [copied_append, List.filter_append, hnil, hb, hbound]
  have hlookup : ((v, place) :: s.bound).lookup v = some place := List.lookup_cons_self
  simpa [Instr.copied?, hvars] using Follows.declare (.assign hlookup .done)

end Traces

end ThreeAddress.Lowering

namespace ThreeAddress.Checked

open Code Control Lowering

variable {env : Env} {plain : List Temp}

theorem Expr.traces (e : Expr) : Traces plain (e.lower env) (declares e.points) :=
  .of_quiet e.quiet e.audits

theorem Expr.tracesTarget (target : Expr) (t : Temp) :
    Traces plain (target.lowerTarget env t) target.stepsTarget := by
  unfold Expr.lowerTarget
  split
  · rename_i array index hl hk
    rw [Expr.stepsTarget, hl, hk]
    show Traces _ _ (declares target.pointsTarget)
    rw [Expr.pointsTarget, hl, hk]
    show Traces _ _ (declares (array.points ++ index.points))
    rw [declares_append]
    exact array.traces.bind fun a ↦ index.traces.andThen fun i ↦
      (Traces.of_piece (.checkedAddress a i) (.checkedAddress a i)).before fun _ ↦
      .append rfl rfl
  · rename_i owner symbol hl hk
    have ha : Audits env.context (target.lowerTarget env t) target.pointsTarget :=
      target.auditsTarget t
    rw [Expr.stepsTarget, hl, hk]
    show Traces _ _ (declares target.pointsTarget)
    rw [Expr.lowerTarget, hl, hk] at ha
    refine .of_quiet ?_ ha
    refine (Expr.quietOwner owner).bind fun object ↦ ?_
    rw [Env.findVar_eq]
    exact (Quiet.lookUp _ _ _).bind fun _ ↦ .append rfl rfl
  · rename_i hl hk
    rw [Expr.stepsTarget, hl, hk]
    exact .assign t
  · rename_i hl hk
    rw [Expr.stepsTarget, hl, hk]
    exact .assign t
  · rename_i hl hk
    rw [Expr.stepsTarget, hl, hk]
    exact .bindAssign t
  · intro s a s' h
    cases h

theorem Expr.tracesGuard (exit : Label) (guard : Option Expr) :
    Traces plain (Expr.lowerGuard env exit guard) (declares (Expr.pointsOption guard)) := by
  cases guard with
  | none => exact .pure ()
  | some guard => exact guard.traces.andThen fun _ ↦ .append rfl rfl

/-- Up to its guard a loop over an array declares its variable, evaluates the array and puts the
first element into the variable. -/
theorem openEach_traces {v : VarId} {array : Expr} {s s₁ s₂ s' : State} {element a : Temp}
    {e : ArrayLoop} (hd : declare v s = .ok element s₁) (ha : array.lower env s₁ = .ok a s₂)
    (hhead : openEach element a s₂ = .ok e s') :
    ∃ new ts, Orderly s s' new ts ∧ e.cursor ∈ ts ∧ ∀ vars : List Temp, Marks vars s s' →
      Follows (.declare v :: (declares array.points ++
        [.element v (declaredAt array.points).length])) s.bound
        ((copied new).filter (· ∈ vars)) s'.bound := by
  have hfirst : Traces [] (declare v) [.declare v] := .declare v
  have harray : Traces [] (array.lower env) (declares array.points) := array.traces
  obtain ⟨new₁, ts₁, o₁, f₁⟩ := hfirst hd
  obtain ⟨new₂, ts₂, o₂, f₂⟩ := harray ha
  obtain ⟨rfl, eh, -, -⟩ := openEach_ok hhead
  have hb : s'.bound = s₂.bound := Bindless.of_mechanical (.openEach _ a) hhead
  have o₃ : Orderly s₂ s' (e.head a) e.temps := by
    refine .of_bound_eq eh ?_ hb
    simp [ArrayLoop.head, ArrayLoop.setup, ArrayLoop.test, ArrayLoop.fetch, ArrayLoop.temps,
      Instr.result?, Instr.dst?]
  refine ⟨_, _, o₁.append (o₂.append o₃), by simp [ArrayLoop.temps], fun vars hm ↦ ?_⟩
  have m₂ := hm.second o₁.toEmission (o₂.append o₃).toEmission
  have m₃ := m₂.second o₂.toEmission eh
  have hbound := (declare_ok hd).2.2
  obtain ⟨added, hadded, -⟩ := o₂.declared_ascending
  -- the bindings made by the array lie on top of that of the variable
  have hlength : added.length = (declaredAt array.points).length := by
    have hnames := Audits.declared_names array.audits ha hadded
    rw [← hnames, List.length_reverse, List.length_map]
  have helement : s₂.bound[(declaredAt array.points).length]? = some (v, e.element) := by
    rw [hadded, hbound, ← hlength, List.getElem?_append_right (le_refl _), Nat.sub_self]
    rfl
  have hcopied : (copied (e.head a)).filter (· ∈ vars) = [e.element] := by
    have hin : e.element ∈ vars := m₃.bound (v, e.element) (List.mem_of_getElem? helement)
    have hcursor : e.cursor ∉ vars := m₃.not_mem eh (by simp [ArrayLoop.temps])
    have hindex : e.index ∉ vars := m₃.not_mem eh (by simp [ArrayLoop.temps])
    simp [ArrayLoop.head, ArrayLoop.setup, ArrayLoop.test, ArrayLoop.fetch, Instr.copied?, hin,
      hcursor, hindex]
  rw [copied_append, copied_append, List.filter_append, List.filter_append, hcopied, hb]
  have f₃ : Follows [.element v (declaredAt array.points).length] s₂.bound [e.element] s₂.bound :=
    .element helement .done
  exact (f₁ vars (by simp) (hm.first (o₂.append o₃).toEmission)).append
    ((f₂ vars (by simp) (m₂.first eh)).append f₃)

theorem eachTail_traces {e : ArrayLoop} {guard : Option Expr} {body : Stmt}
    (hc : e.cursor ∈ plain) (hb : ∀ l, Traces plain (body.lower env (some l)) body.steps) :
    Traces plain (eachTail env guard body e) (declares (Expr.pointsOption guard) ++ body.steps) :=
  (Expr.tracesGuard e.leave guard).bind fun _ ↦ (Traces.advance hc).before fun _ ↦
    (hb e.leave).andThen fun _ ↦ .closeLoop _ _

theorem forEach_traces {exit : Option Label} {v : VarId} {array : Expr} {guard : Option Expr}
    {body : Stmt} {span : Span}
    (hb : ∀ plain l, Traces plain (body.lower env (some l)) body.steps) :
    Traces plain ((Stmt.mk (.forEach v array guard body) span).lower env exit)
      (Stmt.mk (.forEach v array guard body) span).steps := by
  rw [lower_forEach, Stmt.steps]
  intro s u s' h
  simp only [bind_ok_iff] at h
  obtain ⟨element, t, hd, a, t', ha, e, s₁, hhead, htail⟩ := h
  obtain ⟨new₁, ts₁, o₁, hcursor, f₁⟩ := openEach_traces hd ha hhead
  have ht : Traces (e.cursor :: plain) (eachTail env guard body e)
      (declares (Expr.pointsOption guard) ++ body.steps) :=
        eachTail_traces List.mem_cons_self (hb _)
  obtain ⟨new₂, ts₂, o₂, f₂⟩ := ht htail
  refine ⟨_, _, o₁.append o₂, fun vars hp hm ↦ ?_⟩
  have m₁ := hm.first o₂.toEmission
  have hplain : ∀ t ∈ e.cursor :: plain, t ∉ vars :=
    List.forall_mem_cons.mpr ⟨m₁.not_mem o₁.toEmission hcursor, hp⟩
  have hall := (f₁ vars m₁).append (f₂ vars hplain (hm.second o₁.toEmission o₂.toEmission))
  rw [copied_append, List.filter_append]
  simpa only [List.cons_append, List.append_assoc, List.nil_append] using hall

mutual

theorem Stmt.traces {plain : List Temp} (exit : Option Label) : (stmt : Stmt) →
    Traces plain (stmt.lower env exit) stmt.steps
  | .mk (.varDef v) _ => (Traces.declare v).andThen fun _ ↦ .pure ()
  | .mk (.block statements) _ => Stmt.tracesAll exit statements
  | .mk (.exec e) _ => .of_quiet e.quietEffects e.auditsEffects
  | .mk (.assign target source) _ => source.traces.bind fun t ↦ target.tracesTarget t
  | .mk (.cond condition thenBranch (some elseBranch)) _ =>
    condition.traces.bind fun _ ↦ (Traces.freshLabel _).before fun _ ↦
      (Traces.freshLabel _).before fun _ ↦ (Traces.append rfl rfl).before fun _ ↦
      (thenBranch.traces exit).bind fun _ ↦ (Traces.append rfl rfl).before fun _ ↦
      (Traces.place _).before fun _ ↦ (elseBranch.traces exit).andThen fun _ ↦ .place _
  | .mk (.cond condition thenBranch none) _ =>
    condition.traces.bind fun _ ↦ (Traces.freshLabel _).before fun _ ↦
      (Traces.append rfl rfl).before fun _ ↦ (thenBranch.traces exit).bind fun _ ↦ .place _
  | .mk (.whileLoop condition body) _ =>
    (Traces.freshLabel _).before fun _ ↦ (Traces.place _).before fun _ ↦
      condition.traces.bind fun _ ↦ (Traces.freshLabel _).before fun leave ↦
      (Traces.append rfl rfl).before fun _ ↦ (body.traces (some leave)).andThen fun _ ↦
      .closeLoop _ leave
  | .mk (.forLoop init condition update body) _ =>
    (Stmt.tracesOption exit init).bind fun _ ↦ (Traces.freshLabel _).before fun _ ↦
      (Traces.freshLabel _).before fun _ ↦ (Traces.append rfl rfl).before fun _ ↦
      (Traces.place _).before fun _ ↦ (Stmt.tracesOption exit update).bind fun _ ↦
      (Traces.place _).before fun _ ↦ condition.traces.bind fun _ ↦
      (Traces.freshLabel _).before fun leave ↦ (Traces.append rfl rfl).before fun _ ↦
      (body.traces (some leave)).andThen fun _ ↦ .closeLoop _ leave
  | .mk (.forEach _ _ _ body) _ => forEach_traces fun _ l ↦ body.traces (some l)
  | .mk (.ret value) _ =>
    (Traces.of_quiet (Expr.quietOption value) (Expr.auditsOption value)).andThen fun _ ↦
      .append rfl rfl
  | .mk .leave _ => by
    cases exit with
    | none =>
      intro s a s' h
      cases h
    | some l => exact .append rfl rfl
  | .mk (.print args) span => by
    have ha : Audits env.context ((Stmt.mk (.print args) span).lower env exit)
        (args.flatMap Expr.pointsPrint) := (Stmt.mk (.print args) span).audits exit
    exact .of_quiet (.forM (fun e ↦ e.quietPrint) args) ha
  | .mk (.guarded alternatives last) _ =>
    (Branch.tracesAll exit alternatives).bind fun _ ↦ last.traces exit _

theorem Stmt.tracesOption {plain : List Temp} (exit : Option Label) : (stmt : Option Stmt) →
    Traces plain (Stmt.lowerOption env exit stmt) (Stmt.stepsOption stmt)
  | none => .pure ()
  | some stmt => stmt.traces exit

theorem Stmt.tracesAll {plain : List Temp} (exit : Option Label) : (statements : List Stmt) →
    Traces plain (Stmt.lowerAll env exit statements) (Stmt.stepsAll statements)
  | [] => .pure ()
  | stmt :: rest => (stmt.traces exit).bind fun _ ↦ Stmt.tracesAll exit rest

theorem Branch.traces {plain : List Temp} (exit : Option Label) : (b : Branch) → (stem : String) →
    Traces plain (b.lower env exit stem) b.steps
  | .mk guard body, _ =>
    guard.traces.bind fun _ ↦ (Traces.freshLabel _).before fun _ ↦
      (Traces.append rfl rfl).before fun _ ↦ (body.traces exit).andThen fun _ ↦ .place _

theorem Branch.tracesAll {plain : List Temp} (exit : Option Label) : (branches : List Branch) →
    Traces plain (Branch.lowerAll env exit branches) (Branch.stepsAll branches)
  | [] => .pure ()
  | b :: rest => (b.traces exit _).bind fun _ ↦ Branch.tracesAll exit rest

end

end ThreeAddress.Checked
