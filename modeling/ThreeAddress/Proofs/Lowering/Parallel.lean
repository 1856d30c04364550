import ThreeAddress.Proofs.Code.Shift
import ThreeAddress.Proofs.Lowering.Emission

namespace ThreeAddress.Lowering

open Checked Code

/-- The counters of the second state are ahead by the offsets, and it has placed what the first has
placed. A label numbered zero is never issued. -/
structure Counted (o : Offsets) (s s' : State) : Prop where
  temps_eq : s'.temps = s.temps + o.temps
  issued_eq : ∀ stem, s'.issued stem = s.issued stem + o.labels stem
  placed_iff : ∀ l, 0 < l.number → (l.shift o ∈ s'.placed ↔ l ∈ s.placed)

structure Shifted (o : Offsets) (s s' : State) : Prop extends Counted o s s' where
  pending_eq : s'.generator.pending = s.generator.pending
  current_eq : s'.generator.current = s.generator.current.shift o
  bound_eq : s'.bound = s.bound.map fun d ↦ (d.1, d.2.shift o)

/-- The second action does what the first does, from shifted states. What it returns is the result
of the first under `r`. -/
def Parallel {α : Type} (o : Offsets) (r : α → α) (x y : Lower α) : Prop :=
  ∀ ⦃s t⦄, Shifted o s t → match x s with
    | .ok a s' => ∃ t', y t = .ok (r a) t' ∧ Shifted o s' t'
    | .error (.defect d) s' => ∃ t', y t = .error (.defect d) t' ∧ Counted o s' t'
    | .error (.fault _) _ => True

def FillLoop.shift (o : Offsets) (loop : FillLoop) : FillLoop where
  array := loop.array.shift o
  word := loop.word.shift o
  one := loop.one.shift o
  index := loop.index.shift o
  cursor := loop.cursor.shift o
  more := loop.more.shift o
  fill := loop.fill.shift o
  filled := loop.filled.shift o

def ArrayLoop.shift (o : Offsets) (loop : ArrayLoop) : ArrayLoop where
  element := loop.element.shift o
  word := loop.word.shift o
  one := loop.one.shift o
  cursor := loop.cursor.shift o
  length := loop.length.shift o
  index := loop.index.shift o
  more := loop.more.shift o
  nextIndex := loop.nextIndex.shift o
  current := loop.current.shift o
  again := loop.again.shift o
  leave := loop.leave.shift o

def Env.shift (o : Offsets) (env : Env) : Env :=
  { env with receiver := env.receiver.map (Temp.shift o) }

namespace Parallel

variable {α β : Type} {o : Offsets} {r : α → α} {q : β → β} {x y : Lower α} {env : Env}
variable {span : Span}

theorem bind {f g : α → Lower β} (hx : Parallel o r x y) (hf : ∀ a, Parallel o q (f a) (g (r a))) :
    Parallel o q (x >>= f) (y >>= g) := by
  intro s t h
  have hs := hx h
  cases hxs : x s with
  | ok a s₁ =>
    rw [hxs] at hs
    obtain ⟨t₁, ht, h₁⟩ := hs
    rw [bind_of_ok hxs, bind_of_ok ht]
    exact hf a h₁
  | error e s₁ =>
    rw [hxs] at hs
    rw [bind_of_error hxs]
    cases e with
    | fault f => trivial
    | defect d =>
      obtain ⟨t₁, ht, h₁⟩ := hs
      exact ⟨t₁, bind_of_error ht g, h₁⟩

theorem pure (a : α) : Parallel o r (pure a) (pure (r a)) := fun _ t h ↦ ⟨t, rfl, h⟩

theorem reject (kind : DefectKind) (span : Span) :
    Parallel o r (reject kind span) (reject kind span) := fun _ t h ↦ ⟨t, rfl, h.toCounted⟩

theorem lookUp (found : Option α) (kind : DefectKind) (span : Span) :
    Parallel o r (lookUp found kind span) (lookUp (found.map r) kind span) := by
  cases found with
  | none => exact reject kind span
  | some a => exact pure a

theorem same (found : Option α) (kind : DefectKind) (span : Span) :
    Parallel o (fun a ↦ a) (Lowering.lookUp found kind span) (Lowering.lookUp found kind span) := by
  have h := lookUp (o := o) (r := fun a ↦ a) found kind span
  rwa [Option.map_id'] at h

theorem freshTemp : Parallel o (Temp.shift o) freshTemp freshTemp := by
  intro s t h
  have ht : t.temps + 1 = s.temps + 1 + o.temps := by rw [h.temps_eq]; omega
  refine ⟨{ t with generator := t.generator.freshTemp.2 }, ?_, { h with temps_eq := ht }⟩
  exact congrArg (fun n ↦ EStateM.Result.ok (Temp.mk n) _) ht

theorem freshLabel {stem : String} {f g : Label → Lower β}
    (hf : ∀ l, 0 < l.number → Parallel o q (f l) (g (l.shift o))) :
    Parallel o q (freshLabel stem >>= f) (freshLabel stem >>= g) := by
  intro s t h
  have hl : Label.mk stem (t.issued stem + 1) = Label.shift o ⟨stem, s.issued stem + 1⟩ := by
    simp only [Label.shift, Label.mk.injEq, true_and]
    rw [h.issued_eq]
    omega
  have hs : Lowering.freshLabel stem s = .ok ⟨stem, s.issued stem + 1⟩
      { s with generator := (s.generator.freshLabel stem).2 } := rfl
  have ht : Lowering.freshLabel stem t = .ok (Label.shift o ⟨stem, s.issued stem + 1⟩)
      { t with generator := (t.generator.freshLabel stem).2 } := by
    rw [← hl]
    rfl
  rw [bind_of_ok hs, bind_of_ok ht]
  refine hf _ (Nat.succ_pos _) { h with issued_eq := fun p ↦ ?_ }
  have hp := h.issued_eq p
  have h₁ := Generator.issued_freshLabel s.generator stem p
  have h₂ := Generator.issued_freshLabel t.generator stem p
  simp only [State.issued] at hp ⊢
  rw [h₁, h₂]
  split <;> omega

theorem step_append {s t : State} (h : Shifted o s t) (i : Instr) :
    Shifted o { s with generator := s.generator.append i }
      { t with generator := t.generator.append (i.shift o) } :=
  { h with
    current_eq := by
      have hc := h.current_eq
      simp only [Generator.append, Generator.note]
      rw [hc]
      simp [Function.shift] }

theorem append {i i' : Instr} (hi : i' = i.shift o) : Parallel o id (append i) (append i') := by
  intro s t h
  subst hi
  exact ⟨_, rfl, step_append h i⟩

theorem compute {instr instr' : Temp → Instr} (hi : ∀ t, instr' (t.shift o) = (instr t).shift o) :
    Parallel o (Temp.shift o) (compute instr) (compute instr') := by
  have h := (freshTemp (o := o)).bind (q := Temp.shift o)
    (f := fun t ↦ Lowering.append (instr t) >>= fun _ ↦ Pure.pure t)
    (g := fun t ↦ Lowering.append (instr' t) >>= fun _ ↦ Pure.pure t)
    fun t ↦ (append (hi t)).bind fun _ ↦ pure t
  exact h

theorem pass (t : Temp) : Parallel o id (pass t) (pass (t.shift o)) := by
  intro s s' h
  refine ⟨_, rfl, ?_⟩
  have hp : Shifted o
      { s with generator := { s.generator with pending := s.generator.pending + 1 } }
      { s' with generator := { s'.generator with pending := s'.generator.pending + 1 } } :=
    { h with pending_eq := congrArg (· + 1) h.pending_eq }
  exact step_append hp (.param t)

theorem step_call {s t : State} (h : Shifted o s t) (instr instr' : Option Temp → Instr)
    (hi : ∀ d, instr' (d.map (Temp.shift o)) = (instr d).shift o) (type : DataType) :
    (t.generator.call instr' type).1 = (s.generator.call instr type).1.map (Temp.shift o) ∧
    Shifted o { s with generator := (s.generator.call instr type).2 }
      { t with generator := (t.generator.call instr' type).2 } := by
  have hp : Shifted o { s with generator := { s.generator with pending := 0 } }
      { t with generator := { t.generator with pending := 0 } } := { h with pending_eq := rfl }
  unfold Generator.call Generator.resultTemp
  by_cases hv : type.isVoid
  · simp only [if_pos hv, Option.map_none, true_and]
    rw [← Option.map_none (f := Temp.shift o), hi]
    exact step_append hp _
  · simp only [if_neg hv]
    have ht : t.temps + 1 = s.temps + 1 + o.temps := by rw [h.temps_eq]; omega
    have htemp : Temp.mk (t.temps + 1) = Temp.shift o ⟨s.temps + 1⟩ := congrArg Temp.mk ht
    refine ⟨congrArg some htemp, ?_⟩
    have hnext : Shifted o
        { s with generator := { s.generator with pending := 0, temps := s.generator.temps + 1 } }
        { t with generator := { t.generator with pending := 0, temps := t.generator.temps + 1 } } :=
      { hp with temps_eq := ht }
    have happ := step_append hnext (instr (some ⟨s.temps + 1⟩))
    rw [← hi, Option.map_some, ← htemp] at happ
    exact happ

theorem call {instr instr' : Option Temp → Instr}
    (hi : ∀ d, instr' (d.map (Temp.shift o)) = (instr d).shift o) (type : DataType) :
    Parallel o (Option.map (Temp.shift o)) (call instr type) (call instr' type) := by
  intro s t h
  obtain ⟨hr, hs⟩ := step_call h instr instr' hi type
  exact ⟨_, congrArg (fun d ↦ EStateM.Result.ok d _) hr, hs⟩

theorem callRoutine (routine : Routine) :
    Parallel o (Option.map (Temp.shift o)) (callRoutine routine) (callRoutine routine) := by
  intro s t h
  unfold Lowering.callRoutine
  by_cases hp : s.generator.pending = routine.arity
  · have hs : s.generator.callRoutine routine =
        .ok (s.generator.call (.call · routine.name) routine.result) := if_pos hp
    have ht : t.generator.callRoutine routine =
        .ok (t.generator.call (.call · routine.name) routine.result) :=
      if_pos (h.pending_eq.trans hp)
    rw [attempt_of_ok hs, attempt_of_ok ht]
    obtain ⟨hr, hs⟩ := step_call h (.call · routine.name) (.call · routine.name) (fun _ ↦ rfl)
      routine.result
    exact ⟨_, congrArg (fun d ↦ EStateM.Result.ok d _) hr, hs⟩
  · have hs : s.generator.callRoutine routine = .error _ := if_neg hp
    rw [attempt_of_error hs]
    trivial

theorem place {l : Label} (hl : 0 < l.number) : Parallel o id (place l) (place (l.shift o)) := by
  intro s t h
  unfold Lowering.place
  by_cases hp : l ∈ s.generator.placed
  · have hs : (s.generator.place l).map ((), ·) = .error (.placedTwice l) := by
      rw [Generator.place, if_pos hp]
      rfl
    rw [attempt_of_error hs]
    trivial
  · have ht : l.shift o ∉ t.generator.placed := fun hm ↦ hp ((h.placed_iff l hl).mp hm)
    have hs : (s.generator.place l).map ((), ·) =
        .ok ((), { s.generator with placed := l :: s.generator.placed }.append (.label l)) := by
      rw [Generator.place, if_neg hp]
      rfl
    have ht' : (t.generator.place (l.shift o)).map ((), ·) =
        .ok ((), { t.generator with placed := l.shift o :: t.generator.placed }.append
          (.label (l.shift o))) := by
      rw [Generator.place, if_neg ht]
      rfl
    rw [attempt_of_ok hs, attempt_of_ok ht']
    refine ⟨_, rfl, ?_⟩
    have hnext : Shifted o
        { s with generator := { s.generator with placed := l :: s.generator.placed } }
        { t with generator := { t.generator with placed := l.shift o :: t.generator.placed } } :=
      { h with
        placed_iff := fun k hk ↦ by
          have hold := h.placed_iff k hk
          simp only [State.placed, List.mem_cons] at hold ⊢
          rw [hold, Label.shift_injective.eq_iff] }
    exact step_append hnext (.label l)

theorem declare (v : VarId) : Parallel o (Temp.shift o) (declare v) (declare v) := by
  refine freshTemp.bind fun t ↦ ?_
  have h : Parallel o id (modify fun s : State ↦ { s with bound := (v, t) :: s.bound })
      (modify fun s : State ↦ { s with bound := (v, t.shift o) :: s.bound }) := by
    intro s s' h
    refine ⟨_, rfl, { h with bound_eq := ?_ }⟩
    show _ = List.map _ ((v, t) :: s.bound)
    rw [List.map_cons, ← h.bound_eq]
  exact h.bind fun _ ↦ pure t

theorem lookup_shift (v : VarId) (bound : List (VarId × Temp)) :
    (bound.map fun d ↦ (d.1, d.2.shift o)).lookup v = (bound.lookup v).map (Temp.shift o) := by
  induction bound with
  | nil => rfl
  | cons d bound ih =>
    rw [List.map_cons, List.lookup_cons, List.lookup_cons, ih]
    cases v == d.1 <;> rfl

theorem findTemp (v : VarId) :
    Parallel o (Temp.shift o) (env.findTemp v span) ((env.shift o).findTemp v span) := by
  intro s t h
  have hl := lookup_shift (o := o) v s.bound
  rw [← h.bound_eq] at hl
  cases hf : s.bound.lookup v with
  | some u =>
    rw [hf, Option.map_some] at hl
    rw [Env.findTemp_of_some hf]
    exact ⟨t, Env.findTemp_of_some hl, h⟩
  | none =>
    rw [hf, Option.map_none] at hl
    rw [Env.findTemp_of_none hf, Env.findTemp_of_none hl, Env.findVar_eq, Env.findVar_eq]
    exact (same _ _ span).bind (fun _ ↦ reject _ span) h

theorem forM {γ : Type} {f g : γ → Lower Unit} (m : γ → γ) (hf : ∀ c, Parallel o id (f c) (g (m c)))
    (cs : List γ) : Parallel o id (cs.forM f) ((cs.map m).forM g) := by
  induction cs with
  | nil => exact pure ()
  | cons c cs ih => exact (hf c).bind fun _ ↦ ih

theorem demand (result : Option Temp) :
    Parallel o (Temp.shift o) (demand result span) (demand (result.map (Temp.shift o)) span) := by
  rw [demand_eq, demand_eq]
  exact lookUp result _ span

theorem constant (n : Int32) : Parallel o (Temp.shift o) (constant n) (constant n) :=
  compute fun _ ↦ rfl

theorem operate (op : BinaryOp) (left right : Temp) :
    Parallel o (Temp.shift o) (operate op left right) (operate op (left.shift o) (right.shift o)) :=
  compute fun _ ↦ rfl

theorem load (base : Temp) (offset : Int32) :
    Parallel o (Temp.shift o) (load base offset) (load (base.shift o) offset) := compute fun _ ↦ rfl

theorem literal (l : Literal) : Parallel o (Temp.shift o) (literal l) (literal l) := by
  cases l with
  | int n => exact constant n
  | bool b => exact constant _
  | string text => exact compute fun _ ↦ rfl

theorem addressOf (array index : Temp) :
    Parallel o (Temp.shift o) (addressOf array index) (addressOf (array.shift o) (index.shift o)) :=
  (constant _).bind fun word ↦ (operate _ index word).bind fun offset ↦ operate _ array offset

theorem checkedAddress (array index : Temp) :
    Parallel o (Temp.shift o) (checkedAddress array index)
      (checkedAddress (array.shift o) (index.shift o)) :=
  (append rfl).bind fun _ ↦ addressOf array index

theorem guardDivisor (divisor : Temp) :
    Parallel o id (guardDivisor divisor) (guardDivisor (divisor.shift o)) :=
  (compute fun _ ↦ rfl).bind fun message ↦ freshLabel fun _ hn ↦ (constant 0).bind fun zero ↦
    (operate _ divisor zero).bind fun _ ↦ (append rfl).bind fun _ ↦ (pass message).bind fun _ ↦
    (callRoutine _).bind fun _ ↦ (callRoutine _).bind fun _ ↦ place hn

theorem compareStrings (op : BinaryOp) (left right : Temp) :
    Parallel o (Temp.shift o) (compareStrings op left right span)
      (compareStrings op (left.shift o) (right.shift o) span) := by
  refine (pass left).bind fun _ ↦ (pass right).bind fun _ ↦ (callRoutine _).bind fun r ↦
    (demand r).bind fun equal ↦ ?_
  split
  · exact compute fun _ ↦ rfl
  · exact pure equal

theorem applyOp (op : BinaryOp) (leftType rightType : DataType) (left right : Temp) :
    Parallel o (Temp.shift o) (applyOp op leftType rightType left right span)
      (applyOp op leftType rightType (left.shift o) (right.shift o) span) := by
  unfold Lowering.applyOp
  split
  · exact (guardDivisor right).bind fun _ ↦ operate _ left right
  · exact (guardDivisor right).bind fun _ ↦ operate _ left right
  · split
    · exact compareStrings _ left right
    · exact operate _ left right
  · split
    · exact compareStrings _ left right
    · exact operate _ left right
  · exact operate _ left right

theorem callMethod (method : MethodSymbol) (receiver : Option Temp) (args : List Temp) :
    Parallel o (Option.map (Temp.shift o)) (callMethod method receiver args)
      (callMethod method (receiver.map (Temp.shift o)) (args.map (Temp.shift o))) := by
  have hp := forM (Temp.shift o) pass (receiver.toList ++ args)
  rw [List.map_append, ← Option.toList_map] at hp
  refine hp.bind fun _ ↦ ?_
  cases receiver with
  | none => exact call (fun _ ↦ rfl) _
  | some receiver =>
    exact (load receiver 0).bind fun vtable ↦ (load vtable _).bind fun callee ↦
      call (fun _ ↦ rfl) _

theorem copyField (object clone : Temp) (offset : Int32) :
    Parallel o id (copyField object clone offset)
      (copyField (object.shift o) (clone.shift o) offset) :=
  (load object offset).bind fun _ ↦ append rfl

theorem cloneObject (object : Temp) (c : ClassId) :
    Parallel o (Temp.shift o) (cloneObject env object c span)
      (cloneObject (env.shift o) (object.shift o) c span) := by
  unfold Lowering.cloneObject
  rw [Env.findClass_eq, Env.findClass_eq]
  refine (same _ _ span).bind fun symbol ↦ (constant _).bind fun size ↦ (pass size).bind fun _ ↦
    (callRoutine _).bind fun r ↦ (demand r).bind fun clone ↦ ?_
  have hf := forM (fun offset ↦ offset) (copyField (o := o) object clone) (fieldOffsets symbol.size)
  rw [List.map_id'] at hf
  exact hf.bind fun _ ↦ (compute fun _ ↦ rfl).bind fun _ ↦ (append rfl).bind fun _ ↦ pure clone

theorem cloneIfObject (t : Temp) (type : DataType) :
    Parallel o (Temp.shift o) (cloneIfObject env t type span)
      (cloneIfObject (env.shift o) (t.shift o) type span) := by
  unfold Lowering.cloneIfObject
  split
  · exact cloneObject t _
  · exact pure t

theorem closeLoop (again : Label) {leave : Label} (hl : 0 < leave.number) :
    Parallel o id (closeLoop again leave) (closeLoop (again.shift o) (leave.shift o)) :=
  (append rfl).bind fun _ ↦ place hl

theorem openFill {count : Temp} {f g : FillLoop → Lower β}
    (hf : ∀ loop, 0 < loop.filled.number → Parallel o q (f loop) (g (loop.shift o))) :
    Parallel o q (openFill count >>= f) (openFill (count.shift o) >>= g) := by
  simp only [Lowering.openFill, bind_assoc, pure_bind]
  exact (compute fun _ ↦ rfl).bind fun array ↦ freshLabel fun _ hfill ↦ freshLabel fun _ hfilled ↦
    (constant _).bind fun word ↦ (constant _).bind fun one ↦ (constant _).bind fun index ↦
    freshTemp.bind fun cursor ↦ (append rfl).bind fun _ ↦ (place hfill).bind fun _ ↦
    (operate _ index count).bind fun _ ↦ (append rfl).bind fun _ ↦ hf _ hfilled

theorem storeElement {loop : FillLoop} (stored : Temp) (hf : 0 < loop.filled.number) :
    Parallel o id (loop.store stored) ((loop.shift o).store (stored.shift o)) :=
  (append rfl).bind fun _ ↦ (operate _ loop.cursor loop.word).bind fun _ ↦ (append rfl).bind fun _ ↦
    (operate _ loop.index loop.one).bind fun _ ↦ (append rfl).bind fun _ ↦ closeLoop loop.fill hf

theorem fillArray (element count : Temp) (type : DataType) :
    Parallel o (Temp.shift o) (fillArray env element count type span)
      (fillArray (env.shift o) (element.shift o) (count.shift o) type span) :=
  openFill fun loop hf ↦ (cloneIfObject element type).bind fun stored ↦
    (storeElement stored hf).bind fun _ ↦ pure loop.array

theorem openEach {element array : Temp} {f g : ArrayLoop → Lower β}
    (hf : ∀ loop, 0 < loop.leave.number → Parallel o q (f loop) (g (loop.shift o))) :
    Parallel o q (openEach element array >>= f)
      (openEach (element.shift o) (array.shift o) >>= g) := by
  simp only [Lowering.openEach, bind_assoc, pure_bind]
  refine freshLabel fun _ ha ↦ freshLabel fun leave hl ↦ (constant _).bind fun word ↦
    (constant _).bind fun one ↦ freshTemp.bind fun cursor ↦ (append rfl).bind fun _ ↦
    (load array _).bind fun length ↦ (constant _).bind fun index ↦ ?_
  refine (place ha).bind fun _ ↦ (operate _ index length).bind fun _ ↦
    (operate _ index one).bind fun _ ↦ (append rfl).bind fun _ ↦ (append rfl).bind fun _ ↦ ?_
  exact (load cursor 0).bind fun _ ↦ (append rfl).bind fun _ ↦ hf _ hl

theorem advance (loop : ArrayLoop) :
    Parallel o (Temp.shift o) loop.advance (loop.shift o).advance :=
  (operate _ loop.cursor loop.word).bind fun next ↦ (append rfl).bind fun _ ↦ pure next

theorem readOr (array index fallback : Temp) :
    Parallel o (Temp.shift o) (readOr array index fallback)
      (readOr (array.shift o) (index.shift o) (fallback.shift o)) :=
  (load array _).bind fun length ↦ freshTemp.bind fun result ↦ freshLabel fun _ hu ↦
    freshLabel fun _ hi ↦ freshLabel fun _ hd ↦ (operate _ index length).bind fun _ ↦
    (append rfl).bind fun _ ↦ (constant _).bind fun zero ↦ (operate _ index zero).bind fun _ ↦
    (append rfl).bind fun _ ↦ (place hu).bind fun _ ↦ (append rfl).bind fun _ ↦
    (append rfl).bind fun _ ↦ (place hi).bind fun _ ↦ (addressOf array index).bind fun address ↦
    (load address 0).bind fun _ ↦ (append rfl).bind fun _ ↦ (place hd).bind fun _ ↦ pure result

end Parallel

end ThreeAddress.Lowering

namespace ThreeAddress.Checked

open Code Lowering

variable {o : Offsets} {env : Env}

theorem findReceiver_parallel (span : Span) :
    Parallel o (Temp.shift o) (env.findReceiver span) ((env.shift o).findReceiver span) := by
  rw [Env.findReceiver_eq, Env.findReceiver_eq]
  exact .lookUp _ _ span

mutual

theorem Expr.parallel : (e : Expr) →
    Parallel o (Temp.shift o) (e.lower env) (e.lower (env.shift o))
  | .mk (.literal l) _ _ _ => .literal l
  | .mk .null _ _ _ => .constant 0
  | .mk .this _ _ span => findReceiver_parallel span
  | .mk .readInteger _ _ _ => (Parallel.callRoutine _).bind .demand
  | .mk .readLine _ _ _ => (Parallel.callRoutine _).bind .demand
  | .mk (.ident owner symbol) _ .memberVar span => by
    rw [Expr.lower, Expr.lower]
    refine (Expr.parallelOwner span owner).bind fun object ↦ ?_
    rw [Env.findVar_eq, Env.findVar_eq]
    exact (Parallel.same _ _ span).bind fun _ ↦ .load object _
  | .mk (.ident _ symbol) _ .localVar span => .findTemp symbol
  | .mk (.ident _ symbol) _ .paramVar span => .findTemp symbol
  | .mk (.ident _ symbol) _ .notLValue span => .findTemp symbol
  | .mk (.ident _ symbol) _ .arrayElement span => .reject _ _
  | .mk (.indexed array index) _ _ _ =>
    array.parallel.bind fun a ↦ index.parallel.bind fun i ↦
      (Parallel.checkedAddress a i).bind fun address ↦ .load address 0
  | .mk (.call c) _ _ span => (c.parallel span).bind .demand
  | .mk (.arrayLength array) _ _ _ => array.parallel.bind fun a ↦ .load a _
  | .mk (.binary op left right) _ _ _ =>
    left.parallel.bind fun l ↦ right.parallel.bind fun r ↦ .applyOp op _ _ l r
  | .mk (.unary _ operand) _ _ _ => operand.parallel.bind fun _ ↦ .compute fun _ ↦ rfl
  | .mk (.newClass c) _ _ span => by
    rw [Expr.lower, Expr.lower, Env.findClass_eq, Env.findClass_eq]
    exact (Parallel.same _ _ span).bind fun _ ↦ (Parallel.call (fun _ ↦ rfl) _).bind .demand
  | .mk (.newArray _ length) _ _ _ => length.parallel.bind fun _ ↦ .compute fun _ ↦ rfl
  | .mk (.instanceOf object c) _ _ span => by
    rw [Expr.lower, Expr.lower, Env.findClass_eq, Env.findClass_eq]
    exact object.parallel.bind fun _ ↦ (Parallel.same _ _ span).bind fun _ ↦ .compute fun _ ↦ rfl
  | .mk (.cast object c) _ _ span => by
    rw [Expr.lower, Expr.lower, Env.findClass_eq, Env.findClass_eq]
    refine object.parallel.bind fun t ↦ (Parallel.same _ _ span).bind fun _ ↦ ?_
    show Parallel o _ (if _ then _ else _) (if !env.symbols.assignable _ _ then _ else _)
    split
    · exact (Parallel.append rfl).bind fun _ ↦ .pure t
    · exact .pure t
  | .mk (.shallowCopy source) _ _ _ => by
    rw [Expr.lower, Expr.lower]
    split
    · exact source.parallel.bind fun t ↦ .cloneObject t _
    · exact .reject _ _
  | .mk (.newSameArray element count) _ _ _ =>
    element.parallel.bind fun t ↦ count.parallel.bind fun n ↦ .fillArray t n _
  | .mk (.defaultIndex array index fallback) _ _ _ =>
    array.parallel.bind fun a ↦ index.parallel.bind fun i ↦ fallback.parallel.bind fun d ↦
      .readOr a i d
  | .mk (.varBinding symbol) _ _ _ => .declare symbol

theorem Expr.parallelOwner (span : Span) : (owner : Option Expr) →
    Parallel o (Temp.shift o) (Expr.lowerOwner env span owner)
      (Expr.lowerOwner (env.shift o) span owner)
  | some owner => owner.parallel
  | none => findReceiver_parallel span

theorem Call.parallel (span : Span) : (c : Call) →
    Parallel o (Option.map (Temp.shift o)) (c.lower env span) (c.lower (env.shift o) span)
  | .mk receiver method args => by
    rw [Call.lower, Call.lower, Env.findMethod_eq, Env.findMethod_eq]
    exact (Parallel.same _ _ span).bind fun _ ↦ (Expr.parallelOption receiver).bind fun r ↦
      (Expr.parallelAll args).bind fun ts ↦ .callMethod _ r ts

theorem Expr.parallelOption : (e : Option Expr) →
    Parallel o (Option.map (Temp.shift o)) (Expr.lowerOption env e)
      (Expr.lowerOption (env.shift o) e)
  | some e => e.parallel.bind fun t ↦ .pure (some t)
  | none => .pure none

theorem Expr.parallelAll : (es : List Expr) →
    Parallel o (List.map (Temp.shift o)) (Expr.lowerAll env es) (Expr.lowerAll (env.shift o) es)
  | [] => .pure []
  | e :: es => e.parallel.bind fun t ↦ (Expr.parallelAll es).bind fun ts ↦ .pure (t :: ts)

end

theorem Expr.parallelEffects (e : Expr) :
    Parallel o id (e.lowerEffects env) (e.lowerEffects (env.shift o)) := by
  unfold Expr.lowerEffects
  split
  · exact (Call.parallel _ _).bind fun _ ↦ .pure ()
  · exact e.parallel.bind fun _ ↦ .pure ()

theorem Expr.parallelTarget (target : Expr) (t : Temp) :
    Parallel o id (target.lowerTarget env t) (target.lowerTarget (env.shift o) (t.shift o)) := by
  unfold Expr.lowerTarget
  split
  · exact (Expr.parallel _).bind fun a ↦ (Expr.parallel _).bind fun i ↦
      (Parallel.checkedAddress a i).bind fun _ ↦ .append rfl
  · refine (Expr.parallelOwner _ _).bind fun object ↦ ?_
    rw [Env.findVar_eq, Env.findVar_eq]
    exact (Parallel.same _ _ _).bind fun _ ↦ .append rfl
  · exact (Parallel.findTemp _).bind fun _ ↦ .append rfl
  · exact (Parallel.findTemp _).bind fun _ ↦ .append rfl
  · exact (Parallel.declare _).bind fun _ ↦ .append rfl
  · exact .reject _ _

theorem Expr.parallelPrint (e : Expr) :
    Parallel o id (e.lowerPrint env) (e.lowerPrint (env.shift o)) := by
  unfold Expr.lowerPrint
  refine e.parallel.bind fun t ↦ ?_
  split
  · exact .reject _ _
  · exact (Parallel.pass t).bind fun _ ↦ (Parallel.callRoutine _).bind fun _ ↦ .pure ()

theorem Expr.parallelGuard (exit : Label) (guard : Option Expr) :
    Parallel o id (Expr.lowerGuard env exit guard)
      (Expr.lowerGuard (env.shift o) (exit.shift o) guard) := by
  cases guard with
  | none => exact .pure ()
  | some guard => exact guard.parallel.bind fun _ ↦ .append rfl

mutual

theorem Stmt.parallel (exit : Option Label) : (stmt : Stmt) →
    Parallel o id (stmt.lower env exit) (stmt.lower (env.shift o) (exit.map (Label.shift o)))
  | .mk (.varDef v) _ => (Parallel.declare v).bind fun _ ↦ .pure ()
  | .mk (.block statements) _ => Stmt.parallelAll exit statements
  | .mk (.exec e) _ => e.parallelEffects
  | .mk (.assign target source) _ => source.parallel.bind target.parallelTarget
  | .mk (.cond condition thenBranch (some elseBranch)) _ =>
    condition.parallel.bind fun _ ↦ .freshLabel fun _ hd ↦ .freshLabel fun _ ho ↦
      (Parallel.append rfl).bind fun _ ↦ (thenBranch.parallel exit).bind fun _ ↦
      (Parallel.append rfl).bind fun _ ↦ (Parallel.place ho).bind fun _ ↦
      (elseBranch.parallel exit).bind fun _ ↦ .place hd
  | .mk (.cond condition thenBranch none) _ =>
    condition.parallel.bind fun _ ↦ .freshLabel fun _ hd ↦ (Parallel.append rfl).bind fun _ ↦
      (thenBranch.parallel exit).bind fun _ ↦ .place hd
  | .mk (.whileLoop condition body) _ =>
    .freshLabel fun _ ha ↦ (Parallel.place ha).bind fun _ ↦ condition.parallel.bind fun _ ↦
      .freshLabel fun leave hl ↦ (Parallel.append rfl).bind fun _ ↦
      (body.parallel (some leave)).bind fun _ ↦ .closeLoop _ hl
  | .mk (.forLoop init condition update body) _ =>
    (Stmt.parallelOption exit init).bind fun _ ↦ .freshLabel fun _ hc ↦ .freshLabel fun _ ha ↦
      (Parallel.append rfl).bind fun _ ↦ (Parallel.place ha).bind fun _ ↦
      (Stmt.parallelOption exit update).bind fun _ ↦ (Parallel.place hc).bind fun _ ↦
      condition.parallel.bind fun _ ↦ .freshLabel fun leave hl ↦
      (Parallel.append rfl).bind fun _ ↦ (body.parallel (some leave)).bind fun _ ↦ .closeLoop _ hl
  | .mk (.forEach binding array guard body) _ =>
    (Parallel.declare binding).bind fun _ ↦ array.parallel.bind fun _ ↦ .openEach fun loop hl ↦
      (Expr.parallelGuard loop.leave guard).bind fun _ ↦ (Parallel.advance loop).bind fun _ ↦
      (body.parallel (some loop.leave)).bind fun _ ↦ .closeLoop loop.again hl
  | .mk (.ret e) _ => (Expr.parallelOption e).bind fun _ ↦ .append rfl
  | .mk .leave span => by
    cases exit with
    | none => exact .reject _ span
    | some l => exact .append rfl
  | .mk (.print args) _ => by
    have hprint (e : Expr) : Parallel o id (e.lowerPrint env) (e.lowerPrint (env.shift o)) :=
      e.parallelPrint
    have h := Parallel.forM (fun e ↦ e) hprint args
    rwa [List.map_id'] at h
  | .mk (.guarded alternatives last) _ =>
    (Branch.parallelAll exit alternatives).bind fun _ ↦ last.parallel exit _

theorem Stmt.parallelOption (exit : Option Label) : (stmt : Option Stmt) →
    Parallel o id (Stmt.lowerOption env exit stmt)
      (Stmt.lowerOption (env.shift o) (exit.map (Label.shift o)) stmt)
  | none => .pure ()
  | some stmt => stmt.parallel exit

theorem Stmt.parallelAll (exit : Option Label) : (statements : List Stmt) →
    Parallel o id (Stmt.lowerAll env exit statements)
      (Stmt.lowerAll (env.shift o) (exit.map (Label.shift o)) statements)
  | [] => .pure ()
  | stmt :: rest => (stmt.parallel exit).bind fun _ ↦ Stmt.parallelAll exit rest

theorem Branch.parallel (exit : Option Label) (stem : String) : (b : Branch) →
    Parallel o id (b.lower env exit stem) (b.lower (env.shift o) (exit.map (Label.shift o)) stem)
  | .mk guard body =>
    guard.parallel.bind fun _ ↦ .freshLabel fun _ hs ↦ (Parallel.append rfl).bind fun _ ↦
      (body.parallel exit).bind fun _ ↦ .place hs

theorem Branch.parallelAll (exit : Option Label) : (bs : List Branch) →
    Parallel o id (Branch.lowerAll env exit bs)
      (Branch.lowerAll (env.shift o) (exit.map (Label.shift o)) bs)
  | [] => .pure ()
  | b :: rest => (b.parallel exit _).bind fun _ ↦ Branch.parallelAll exit rest

end

end ThreeAddress.Checked
