import Mathlib.Data.List.Nodup
import ThreeAddress.Proofs.Lowering.Emission

namespace ThreeAddress.Lowering

open Checked Code

/-- No label was placed that was not issued. -/
def Settled (s : State) : Prop := ∀ l ∈ s.placed, l.number ≤ s.issued l.stem

/-- The labels listed were issued and wait for their place, and `n` parameters wait for a call. -/
structure Waiting (ls : List Label) (n : Nat) (s : State) : Prop where
  settled : Settled s
  nodup : ls.Nodup
  issued : ∀ l ∈ ls, l.number ≤ s.issued l.stem
  unplaced : ∀ l ∈ ls, l ∉ s.placed
  pending_eq : s.generator.pending = n

def Safe {α : Type} (P : State → Prop) (x : Lower α) (Q : α → State → Prop) : Prop :=
  ∀ ⦃s⦄, P s → match x s with
    | .ok a s' => Q a s'
    | .error (.defect _) s' => Settled s'
    | .error (.fault _) _ => False

/-- Whatever waits is still waiting afterwards. -/
def Steady {α : Type} (n : Nat) (x : Lower α) : Prop :=
  ∀ ls, Safe (Waiting ls n) x fun _ ↦ Waiting ls n

namespace Safe

variable {α β : Type} {P : State → Prop} {Q : α → State → Prop} {R : β → State → Prop}
variable {ls : List Label} {n : Nat} {l : Label}

theorem bind {x : Lower α} {f : α → Lower β} (hx : Safe P x Q) (hf : ∀ a, Safe (Q a) (f a) R) :
    Safe P (x >>= f) R := by
  intro s h
  have hs := hx h
  cases hxs : x s with
  | ok a s₁ =>
    rw [hxs] at hs
    rw [bind_of_ok hxs]
    exact hf a hs
  | error e s₁ =>
    rw [hxs] at hs
    rw [bind_of_error hxs]
    cases e with
    | defect d => exact hs
    | fault f => exact hs

theorem freshLabel (stem : String) :
    Safe (Waiting ls n) (freshLabel stem) fun l ↦ Waiting (l :: ls) n := by
  intro s h
  have hi (p : String) := Generator.issued_freshLabel s.generator stem p
  have hle (p : String) : s.issued p ≤ (s.generator.freshLabel stem).2.issued p := by
    rw [hi]
    split
    · exact Nat.le_succ _
    · exact le_rfl
  have hnew : s.issued stem < s.issued stem + 1 := Nat.lt_succ_self _
  show Waiting (⟨stem, s.issued stem + 1⟩ :: ls) n
    { s with generator := (s.generator.freshLabel stem).2 }
  refine ⟨fun k hk ↦ (h.settled k hk).trans (hle _), List.nodup_cons.mpr ⟨?_, h.nodup⟩, ?_, ?_,
    h.pending_eq⟩
  · intro hm
    have hold := h.issued _ hm
    simp only at hold
    omega
  · intro k hk
    rcases List.mem_cons.mp hk with rfl | hk
    · exact le_of_eq ((hi stem).trans (if_pos rfl)).symm
    · exact (h.issued k hk).trans (hle _)
  · intro k hk hp
    rcases List.mem_cons.mp hk with rfl | hk
    · have hold := h.settled _ hp
      simp only at hold
      omega
    · exact h.unplaced k hk hp

theorem place (front : List Label) :
    Safe (Waiting (front ++ l :: ls) n) (place l) fun _ ↦ Waiting (front ++ ls) n := by
  intro s h
  have hl : l ∈ front ++ l :: ls := by simp
  have hp : l ∉ s.generator.placed := h.unplaced l hl
  have hs : (s.generator.place l).map ((), ·) =
      .ok ((), { s.generator with placed := l :: s.generator.placed }.append (.label l)) := by
    rw [Generator.place, if_neg hp]
    rfl
  unfold Lowering.place
  rw [attempt_of_ok hs]
  have hsub {k : Label} (hk : k ∈ front ++ ls) : k ∈ front ++ l :: ls := by
    simp only [List.mem_append, List.mem_cons] at hk ⊢
    exact hk.imp_right .inr
  obtain ⟨hnot, hnodup⟩ := List.nodup_cons.mp (List.nodup_middle.mp h.nodup)
  refine ⟨?_, hnodup, fun k hk ↦ h.issued k (hsub hk), ?_, h.pending_eq⟩
  · intro k hk
    rcases List.mem_cons.mp hk with rfl | hk
    · exact h.issued k hl
    · exact h.settled k hk
  · intro k hk hm
    rcases List.mem_cons.mp hm with rfl | hm
    · exact hnot hk
    · exact h.unplaced k (hsub hk) hm

theorem pass (t : Temp) : Safe (Waiting ls n) (pass t) fun _ ↦ Waiting ls (n + 1) := fun _ h ↦
  ⟨h.settled, h.nodup, h.issued, h.unplaced, congrArg (· + 1) h.pending_eq⟩

theorem step_call {s : State} (h : Waiting ls n s) (instr : Option Temp → Instr) (type : DataType) :
    Waiting ls 0 { s with generator := (s.generator.call instr type).2 } := by
  unfold Generator.call Generator.resultTemp
  by_cases hv : type.isVoid
  · simp only [if_pos hv]
    exact ⟨h.settled, h.nodup, h.issued, h.unplaced, rfl⟩
  · simp only [if_neg hv]
    exact ⟨h.settled, h.nodup, h.issued, h.unplaced, rfl⟩

theorem call (instr : Option Temp → Instr) (type : DataType) :
    Safe (Waiting ls n) (call instr type) fun _ ↦ Waiting ls 0 := fun _ h ↦ step_call h instr type

theorem callRoutine (r : Routine) (hr : r.arity = n) :
    Safe (Waiting ls n) (callRoutine r) fun _ ↦ Waiting ls 0 := by
  intro s h
  have hs : s.generator.callRoutine r = .ok (s.generator.call (.call · r.name) r.result) :=
    if_pos (h.pending_eq.trans hr.symm)
  unfold Lowering.callRoutine
  rw [attempt_of_ok hs]
  exact step_call h (.call · r.name) r.result

end Safe

namespace Steady

variable {α β : Type} {ls : List Label} {n : Nat} {env : Env} {span : Span}

theorem bind {x : Lower α} {f : α → Lower β} (hx : Steady n x) (hf : ∀ a, Steady n (f a)) :
    Steady n (x >>= f) := fun ls ↦ (hx ls).bind fun a ↦ hf a ls

theorem pure (a : α) : Steady n (pure a : Lower α) := fun _ _ h ↦ h

theorem reject (kind : DefectKind) (span : Span) : Steady n (reject kind span : Lower α) :=
  fun _ _ h ↦ h.settled

theorem lookUp (found : Option α) (kind : DefectKind) (span : Span) :
    Steady n (lookUp found kind span) := by
  cases found with
  | none => exact reject kind span
  | some a => exact pure a

theorem demand (result : Option Temp) : Steady n (demand result span) :=
  demand_eq result ▸ lookUp result _ span

theorem freshTemp : Steady n freshTemp := fun _ _ h ↦
  ⟨h.settled, h.nodup, h.issued, h.unplaced, h.pending_eq⟩

theorem append (i : Instr) : Steady n (append i) := fun _ _ h ↦
  ⟨h.settled, h.nodup, h.issued, h.unplaced, h.pending_eq⟩

theorem compute (instr : Temp → Instr) : Steady n (compute instr) := fun _ _ h ↦
  ⟨h.settled, h.nodup, h.issued, h.unplaced, h.pending_eq⟩

theorem declare (v : VarId) : Steady n (declare v) := fun _ _ h ↦
  ⟨h.settled, h.nodup, h.issued, h.unplaced, h.pending_eq⟩

theorem findTemp (v : VarId) : Steady n (env.findTemp v span) := by
  intro ls s h
  cases hf : s.bound.lookup v with
  | some t =>
    rw [Env.findTemp_of_some hf]
    exact h
  | none =>
    rw [Env.findTemp_of_none hf, Env.findVar_eq]
    exact (lookUp _ _ span).bind (fun _ ↦ reject _ span) ls h

theorem forM {γ : Type} {f : γ → Lower Unit} (hf : ∀ c, Steady n (f c)) (cs : List γ) :
    Steady n (cs.forM f) := by
  induction cs with
  | nil => exact pure ()
  | cons c cs ih => exact (hf c).bind fun _ ↦ ih

theorem constant (k : Int32) : Steady n (constant k) := compute _

theorem literal (l : Literal) : Steady n (literal l) := by
  cases l with
  | int k => exact constant k
  | bool b => exact constant _
  | string text => exact compute _

theorem load (base : Temp) (offset : Int32) : Steady n (load base offset) := compute _

theorem loadLength (array : Temp) : Steady n (loadLength array) := load array _

theorem addressOf (array index : Temp) : Steady n (addressOf array index) :=
  (compute _).bind fun _ ↦ (compute _).bind fun _ ↦ compute _

theorem checkedAddress (array index : Temp) : Steady n (checkedAddress array index) :=
  (append _).bind fun _ ↦ addressOf array index

theorem guardDivisor (divisor : Temp) : Steady 0 (guardDivisor divisor) := fun ls ↦
  (compute _ ls).bind fun message ↦ (Safe.freshLabel _).bind fun _ ↦ (compute _ _).bind fun _ ↦
    (compute _ _).bind fun _ ↦ (append _ _).bind fun _ ↦ (Safe.pass message).bind fun _ ↦
    (Safe.callRoutine .printString rfl).bind fun _ ↦ (Safe.callRoutine .halt rfl).bind fun _ ↦
    Safe.place []

theorem compareStrings (op : BinaryOp) (left right : Temp) :
    Steady 0 (compareStrings op left right span) := by
  intro ls
  refine (Safe.pass left).bind fun _ ↦ (Safe.pass right).bind fun _ ↦
    (Safe.callRoutine .stringEqual rfl).bind fun r ↦ (demand r ls).bind fun equal ↦ ?_
  split
  · exact compute _ ls
  · exact pure equal ls

theorem applyOp (op : BinaryOp) (leftType rightType : DataType) (left right : Temp) :
    Steady 0 (applyOp op leftType rightType left right span) := by
  unfold Lowering.applyOp
  split
  · exact (guardDivisor right).bind fun _ ↦ compute _
  · exact (guardDivisor right).bind fun _ ↦ compute _
  · split
    · exact compareStrings _ left right
    · exact compute _
  · split
    · exact compareStrings _ left right
    · exact compute _
  · exact compute _

theorem callMethod (method : MethodSymbol) (receiver : Option Temp) (args : List Temp) :
    Steady 0 (callMethod method receiver args) := by
  intro ls
  have hp (ts : List Temp) (n : Nat) :
      Safe (Waiting ls n) (ts.forM Lowering.pass) fun _ ↦ Waiting ls (n + ts.length) := by
    induction ts generalizing n with
    | nil => exact pure () ls
    | cons t ts ih =>
      have h := (Safe.pass t).bind fun _ ↦ ih (n + 1)
      rw [List.length_cons, Nat.add_comm ts.length, ← Nat.add_assoc]
      exact h
  refine (hp (receiver.toList ++ args) 0).bind fun _ ↦ ?_
  cases receiver with
  | none => exact .call _ _
  | some receiver => exact (compute _ ls).bind fun _ ↦ (compute _ ls).bind fun _ ↦ .call _ _

theorem cloneObject (object : Temp) (c : ClassId) : Steady 0 (cloneObject env object c span) := by
  intro ls
  unfold Lowering.cloneObject
  rw [Env.findClass_eq]
  refine (lookUp _ _ span ls).bind fun symbol ↦ (compute _ ls).bind fun size ↦
    (Safe.pass size).bind fun _ ↦ (Safe.callRoutine .allocate rfl).bind fun r ↦
    (demand r ls).bind fun clone ↦
    (forM (fun _ ↦ (compute _).bind fun _ ↦ append _) _ ls).bind fun _ ↦
    (compute _ ls).bind fun _ ↦ (append _ ls).bind fun _ ↦ pure clone ls

theorem cloneIfObject (t : Temp) (type : DataType) :
    Steady 0 (cloneIfObject env t type span) := by
  unfold Lowering.cloneIfObject
  split
  · exact cloneObject t _
  · exact pure t

theorem closeLoop (again leave : Label) :
    Safe (Waiting (leave :: ls) n) (closeLoop again leave) fun _ ↦ Waiting ls n :=
  (append _ _).bind fun _ ↦ Safe.place []

theorem openFill (count : Temp) :
    Safe (Waiting ls n) (openFill count) fun loop ↦ Waiting (loop.filled :: ls) n := by
  refine (compute _ ls).bind fun array ↦ (Safe.freshLabel _).bind fun _ ↦
    (Safe.freshLabel _).bind fun filled ↦ (constant _ _).bind fun _ ↦ (constant _ _).bind fun _ ↦
    (constant _ _).bind fun _ ↦ (freshTemp _).bind fun _ ↦ (append _ _).bind fun _ ↦ ?_
  exact (Safe.place [filled]).bind fun _ ↦ (compute _ _).bind fun _ ↦ (append _ _).bind fun _ ↦
    fun _ h ↦ h

theorem storeElement (loop : FillLoop) (stored : Temp) :
    Safe (Waiting (loop.filled :: ls) n) (loop.store stored) fun _ ↦ Waiting ls n :=
  (append _ _).bind fun _ ↦ (compute _ _).bind fun _ ↦ (append _ _).bind fun _ ↦
    (compute _ _).bind fun _ ↦ (append _ _).bind fun _ ↦ closeLoop loop.fill loop.filled

theorem fillArray (element count : Temp) (type : DataType) :
    Steady 0 (fillArray env element count type span) := fun ls ↦
  (openFill count).bind fun loop ↦ (cloneIfObject element type _).bind fun stored ↦
    (storeElement loop stored).bind fun _ ↦ pure loop.array ls

theorem openEach (element array : Temp) :
    Safe (Waiting ls n) (openEach element array) fun loop ↦ Waiting (loop.leave :: ls) n := by
  refine (Safe.freshLabel _).bind fun _ ↦ (Safe.freshLabel _).bind fun leave ↦
    (constant _ _).bind fun _ ↦ (constant _ _).bind fun _ ↦ (freshTemp _).bind fun cursor ↦
    (append _ _).bind fun _ ↦ (loadLength array _).bind fun _ ↦ (constant _ _).bind fun _ ↦ ?_
  refine (Safe.place [leave]).bind fun _ ↦ (compute _ _).bind fun _ ↦ (compute _ _).bind fun _ ↦
    (append _ _).bind fun _ ↦ (append _ _).bind fun _ ↦ ?_
  exact (load cursor 0 _).bind fun _ ↦ (append _ _).bind fun _ ↦ fun _ h ↦ h

theorem advance (loop : ArrayLoop) : Steady n loop.advance :=
  (compute _).bind fun next ↦ (append _).bind fun _ ↦ pure next

theorem readOr (array index fallback : Temp) : Steady 0 (readOr array index fallback) := by
  intro ls
  refine (loadLength array ls).bind fun _ ↦ (freshTemp ls).bind fun result ↦ ?_
  refine (Safe.freshLabel _).bind fun _ ↦ (Safe.freshLabel _).bind fun inBounds ↦
    (Safe.freshLabel _).bind fun done ↦ ?_
  refine (compute _ _).bind fun _ ↦ (append _ _).bind fun _ ↦ (constant _ _).bind fun _ ↦
    (compute _ _).bind fun _ ↦ (append _ _).bind fun _ ↦ ?_
  refine (Safe.place [done, inBounds]).bind fun _ ↦ (append _ _).bind fun _ ↦
    (append _ _).bind fun _ ↦ ?_
  refine (Safe.place [done]).bind fun _ ↦ (addressOf array index _).bind fun _ ↦
    (compute _ _).bind fun _ ↦ (append _ _).bind fun _ ↦ ?_
  exact (Safe.place []).bind fun _ ↦ pure result ls

end Steady

end ThreeAddress.Lowering

namespace ThreeAddress.Checked

open Code Lowering

variable {env : Env}

theorem findReceiver_steady (span : Span) : Steady 0 (env.findReceiver span) := by
  rw [Env.findReceiver_eq]
  exact .lookUp _ _ span

mutual

theorem Expr.steady : (e : Expr) → Steady 0 (e.lower env)
  | .mk (.literal l) _ _ _ => .literal l
  | .mk .null _ _ _ => .constant 0
  | .mk .this _ _ span => findReceiver_steady span
  | .mk .readInteger _ _ _ =>
    fun ls ↦ (Safe.callRoutine .readInt rfl).bind fun r ↦ Steady.demand r ls
  | .mk .readLine _ _ _ => fun ls ↦ (Safe.callRoutine .readLine rfl).bind fun r ↦ Steady.demand r ls
  | .mk (.ident owner symbol) _ .memberVar span => by
    rw [Expr.lower]
    refine (Expr.steadyOwner span owner).bind fun object ↦ ?_
    rw [Env.findVar_eq]
    exact (Steady.lookUp _ _ span).bind fun _ ↦ .compute _
  | .mk (.ident _ symbol) _ .localVar span => .findTemp symbol
  | .mk (.ident _ symbol) _ .paramVar span => .findTemp symbol
  | .mk (.ident _ symbol) _ .notLValue span => .findTemp symbol
  | .mk (.ident _ symbol) _ .arrayElement span => .reject _ _
  | .mk (.indexed array index) _ _ _ =>
    array.steady.bind fun a ↦ index.steady.bind fun i ↦
      (Steady.checkedAddress a i).bind fun _ ↦ .compute _
  | .mk (.call c) _ _ span => (c.steady span).bind .demand
  | .mk (.arrayLength array) _ _ _ => array.steady.bind .loadLength
  | .mk (.binary op left right) _ _ _ =>
    left.steady.bind fun l ↦ right.steady.bind fun r ↦ .applyOp op _ _ l r
  | .mk (.unary _ operand) _ _ _ => operand.steady.bind fun _ ↦ .compute _
  | .mk (.newClass c) _ _ span => by
    rw [Expr.lower, Env.findClass_eq]
    exact (Steady.lookUp _ _ span).bind fun _ ls ↦ (Safe.call _ _).bind fun r ↦ Steady.demand r ls
  | .mk (.newArray _ length) _ _ _ => length.steady.bind fun _ ↦ .compute _
  | .mk (.instanceOf object c) _ _ span => by
    rw [Expr.lower, Env.findClass_eq]
    exact object.steady.bind fun _ ↦ (Steady.lookUp _ _ span).bind fun _ ↦ .compute _
  | .mk (.cast object c) _ _ span => by
    rw [Expr.lower, Env.findClass_eq]
    refine object.steady.bind fun t ↦ (Steady.lookUp _ _ span).bind fun _ ↦ ?_
    split
    · exact (Steady.append _).bind fun _ ↦ .pure t
    · exact .pure t
  | .mk (.shallowCopy source) _ _ _ => by
    rw [Expr.lower]
    split
    · exact source.steady.bind fun t ↦ .cloneObject t _
    · exact .reject _ _
  | .mk (.newSameArray element count) _ _ _ =>
    element.steady.bind fun t ↦ count.steady.bind fun n ↦ .fillArray t n _
  | .mk (.defaultIndex array index fallback) _ _ _ =>
    array.steady.bind fun a ↦ index.steady.bind fun i ↦ fallback.steady.bind fun d ↦ .readOr a i d
  | .mk (.varBinding symbol) _ _ _ => .declare symbol

theorem Expr.steadyOwner (span : Span) : (owner : Option Expr) →
    Steady 0 (Expr.lowerOwner env span owner)
  | some owner => owner.steady
  | none => findReceiver_steady span

theorem Call.steady (span : Span) : (c : Call) → Steady 0 (c.lower env span)
  | .mk receiver method args => by
    rw [Call.lower, Env.findMethod_eq]
    exact (Steady.lookUp _ _ span).bind fun _ ↦ (Expr.steadyOption receiver).bind fun r ↦
      (Expr.steadyAll args).bind fun ts ↦ .callMethod _ r ts

theorem Expr.steadyOption : (e : Option Expr) → Steady 0 (Expr.lowerOption env e)
  | some e => e.steady.bind fun _ ↦ .pure _
  | none => .pure none

theorem Expr.steadyAll : (es : List Expr) → Steady 0 (Expr.lowerAll env es)
  | [] => .pure []
  | e :: es => e.steady.bind fun _ ↦ (Expr.steadyAll es).bind fun _ ↦ .pure _

end

theorem Expr.steadyEffects (e : Expr) : Steady 0 (e.lowerEffects env) := by
  unfold Expr.lowerEffects
  split
  · exact (Call.steady _ _).bind fun _ ↦ .pure ()
  · exact e.steady.bind fun _ ↦ .pure ()

theorem Expr.steadyTarget (target : Expr) (t : Temp) : Steady 0 (target.lowerTarget env t) := by
  unfold Expr.lowerTarget
  split
  · exact (Expr.steady _).bind fun a ↦ (Expr.steady _).bind fun i ↦
      (Steady.checkedAddress a i).bind fun _ ↦ .append _
  · refine (Expr.steadyOwner _ _).bind fun object ↦ ?_
    rw [Env.findVar_eq]
    exact (Steady.lookUp _ _ _).bind fun _ ↦ .append _
  · exact (Steady.findTemp _).bind fun _ ↦ .append _
  · exact (Steady.findTemp _).bind fun _ ↦ .append _
  · exact (Steady.declare _).bind fun _ ↦ .append _
  · exact .reject _ _

theorem Expr.steadyPrint (e : Expr) : Steady 0 (e.lowerPrint env) := by
  unfold Expr.lowerPrint
  refine e.steady.bind fun t ↦ ?_
  cases hr : Routine.printer? e.type with
  | none => exact .reject _ _
  | some r =>
    have ha : r.arity = 0 + 1 := by
      unfold Routine.printer? at hr
      split at hr <;> cases hr <;> rfl
    exact fun ls ↦ (Safe.pass t).bind fun _ ↦ (Safe.callRoutine r ha).bind fun _ ↦ Steady.pure () ls

theorem Expr.steadyGuard (exit : Label) (guard : Option Expr) :
    Steady 0 (Expr.lowerGuard env exit guard) := by
  cases guard with
  | none => exact .pure ()
  | some guard => exact guard.steady.bind fun _ ↦ .append _

mutual

theorem Stmt.steady (exit : Option Label) : (stmt : Stmt) → Steady 0 (stmt.lower env exit)
  | .mk (.varDef v) _ => (Steady.declare v).bind fun _ ↦ .pure ()
  | .mk (.block statements) _ => Stmt.steadyAll exit statements
  | .mk (.exec e) _ => e.steadyEffects
  | .mk (.assign target source) _ => source.steady.bind target.steadyTarget
  | .mk (.cond condition thenBranch (some elseBranch)) _ => fun ls ↦
    (condition.steady ls).bind fun _ ↦ (Safe.freshLabel _).bind fun _ ↦
      (Safe.freshLabel _).bind fun _ ↦ (Steady.append _ _).bind fun _ ↦
      (thenBranch.steady exit _).bind fun _ ↦ (Steady.append _ _).bind fun _ ↦
      (Safe.place []).bind fun _ ↦ (elseBranch.steady exit _).bind fun _ ↦ .place []
  | .mk (.cond condition thenBranch none) _ => fun ls ↦
    (condition.steady ls).bind fun _ ↦ (Safe.freshLabel _).bind fun _ ↦
      (Steady.append _ _).bind fun _ ↦ (thenBranch.steady exit _).bind fun _ ↦ .place []
  | .mk (.whileLoop condition body) _ => fun ls ↦
    (Safe.freshLabel _).bind fun _ ↦ (Safe.place []).bind fun _ ↦
      (condition.steady ls).bind fun _ ↦ (Safe.freshLabel _).bind fun leave ↦
      (Steady.append _ _).bind fun _ ↦ (body.steady (some leave) _).bind fun _ ↦
      Steady.closeLoop _ leave
  | .mk (.forLoop init condition update body) _ => fun ls ↦
    (Stmt.steadyOption exit init ls).bind fun _ ↦ (Safe.freshLabel _).bind fun _ ↦
      (Safe.freshLabel _).bind fun _ ↦ (Steady.append _ _).bind fun _ ↦
      (Safe.place []).bind fun _ ↦ (Stmt.steadyOption exit update _).bind fun _ ↦
      (Safe.place []).bind fun _ ↦ (condition.steady ls).bind fun _ ↦
      (Safe.freshLabel _).bind fun leave ↦ (Steady.append _ _).bind fun _ ↦
      (body.steady (some leave) _).bind fun _ ↦ Steady.closeLoop _ leave
  | .mk (.forEach binding array guard body) _ => fun ls ↦
    (Steady.declare binding ls).bind fun element ↦ (array.steady ls).bind fun a ↦
      (Steady.openEach element a).bind fun loop ↦ (Expr.steadyGuard loop.leave guard _).bind fun _ ↦
      (Steady.advance loop _).bind fun _ ↦ (body.steady (some loop.leave) _).bind fun _ ↦
      Steady.closeLoop loop.again loop.leave
  | .mk (.ret e) _ => (Expr.steadyOption e).bind fun _ ↦ .append _
  | .mk .leave span => by
    cases exit with
    | none => exact .reject _ span
    | some l => exact .append _
  | .mk (.print args) _ => .forM (fun e ↦ e.steadyPrint) args
  | .mk (.guarded alternatives last) _ =>
    (Branch.steadyAll exit alternatives).bind fun _ ↦ last.steady exit _

theorem Stmt.steadyOption (exit : Option Label) : (stmt : Option Stmt) →
    Steady 0 (Stmt.lowerOption env exit stmt)
  | none => .pure ()
  | some stmt => stmt.steady exit

theorem Stmt.steadyAll (exit : Option Label) : (statements : List Stmt) →
    Steady 0 (Stmt.lowerAll env exit statements)
  | [] => .pure ()
  | stmt :: rest => (stmt.steady exit).bind fun _ ↦ Stmt.steadyAll exit rest

theorem Branch.steady (exit : Option Label) (stem : String) : (b : Branch) →
    Steady 0 (b.lower env exit stem)
  | .mk guard body => fun ls ↦
    (guard.steady ls).bind fun _ ↦ (Safe.freshLabel _).bind fun _ ↦
      (Steady.append _ _).bind fun _ ↦ (body.steady exit _).bind fun _ ↦ .place []

theorem Branch.steadyAll (exit : Option Label) : (bs : List Branch) →
    Steady 0 (Branch.lowerAll env exit bs)
  | [] => .pure ()
  | b :: rest => (b.steady exit _).bind fun _ ↦ Branch.steadyAll exit rest

end

end ThreeAddress.Checked
