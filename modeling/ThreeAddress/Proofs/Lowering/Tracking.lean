import ThreeAddress.Proofs.Code.Shift
import ThreeAddress.Proofs.Lowering.Emission

namespace ThreeAddress.Lowering

open Checked Code

/-- A property of actions that know some temporaries and have others in their results. It holds of
all that expressions are lowered to. -/
structure Tracking (P : {α : Type} → List Temp → Lower α → (α → List Temp) → Prop) : Prop where
  pure {α : Type} {known : List Temp} {res : α → List Temp} (a : α) (h : ∀ t ∈ res a, t ∈ known) :
    P known (pure a) res
  bind {α β : Type} {known : List Temp} {x : Lower α} {f : α → Lower β} {res : α → List Temp}
    {rest : β → List Temp} (hx : P known x res) (hf : ∀ a, P (res a ++ known) (f a) rest) :
    P known (x >>= f) rest
  reject {α : Type} {known : List Temp} {res : α → List Temp} (kind : DefectKind) (span : Span) :
    P known (reject kind span) res
  compute {known : List Temp} {instr : Temp → Instr} (us : List Temp)
    (h : ∀ t, (instr t).Yields (some t) us) (hu : ∀ u ∈ us, u ∈ known) :
    P known (compute instr) fun t ↦ [t]
  append {known : List Temp} {i : Instr} (us : List Temp) (h : i.Yields none us)
    (hu : ∀ u ∈ us, u ∈ known) : P known (append i) fun _ ↦ []
  pass {known : List Temp} {t : Temp} (ht : t ∈ known) : P known (pass t) fun _ ↦ []
  call {known : List Temp} {instr : Option Temp → Instr} (type : DataType) (us : List Temp)
    (h : ∀ d, (instr d).Yields d us) (hu : ∀ u ∈ us, u ∈ known) :
    P known (call instr type) Option.toList
  callRoutine {known : List Temp} (r : Routine) : P known (callRoutine r) Option.toList
  declare {known : List Temp} (v : VarId) : P known (declare v) fun t ↦ [t]
  findTemp {known : List Temp} {env : Env} (v : VarId) (span : Span) :
    P known (env.findTemp v span) fun t ↦ [t]
  guardDivisor {known : List Temp} {divisor : Temp} (h : divisor ∈ known) :
    P known (guardDivisor divisor) fun _ ↦ []
  cloneObject {known : List Temp} {env : Env} {object : Temp} (c : ClassId) (span : Span)
    (h : object ∈ known) : P known (cloneObject env object c span) fun t ↦ [t]
  fillArray {known : List Temp} {env : Env} {element count : Temp} (type : DataType) (span : Span)
    (he : element ∈ known) (hc : count ∈ known) :
    P known (fillArray env element count type span) fun t ↦ [t]
  readOr {known : List Temp} {array index fallback : Temp} (ha : array ∈ known)
    (hi : index ∈ known) (hf : fallback ∈ known) : P known (readOr array index fallback) fun t ↦ [t]

namespace Tracking

variable {P : {α : Type} → List Temp → Lower α → (α → List Temp) → Prop} (T : Tracking P)
include T

variable {α : Type} {known : List Temp} {res : α → List Temp} {env : Env} {span : Span}

theorem lookUp {found : Option α} {kind : DefectKind}
    (h : ∀ a, found = some a → ∀ t ∈ res a, t ∈ known) : P known (lookUp found kind span) res := by
  cases found with
  | none => exact T.reject kind span
  | some a => exact T.pure a (h a rfl)

theorem find {found : Option α} {kind : DefectKind} :
    P known (Lowering.lookUp found kind span) fun _ ↦ [] := T.lookUp (by simp)

theorem demand {result : Option Temp} (h : ∀ t ∈ result, t ∈ known) :
    P known (demand result span) fun t ↦ [t] := by
  rw [demand_eq]
  exact T.lookUp (by simpa using h)

theorem findReceiver (hk : ∀ t ∈ env.receiver, t ∈ known) :
    P known (env.findReceiver span) fun t ↦ [t] := by
  rw [Env.findReceiver_eq]
  exact T.lookUp (by simpa using hk)

theorem constant (n : Int32) : P known (constant n) fun t ↦ [t] :=
  T.compute [] (fun _ ↦ ⟨rfl, rfl, rfl, rfl⟩) (by simp)

theorem literal (l : Literal) : P known (literal l) fun t ↦ [t] := by
  cases l with
  | int n => exact T.constant n
  | bool b => exact T.constant _
  | string text => exact T.compute [] (fun _ ↦ ⟨rfl, rfl, rfl, rfl⟩) (by simp)

theorem load {base : Temp} (offset : Int32) (hb : base ∈ known) :
    P known (load base offset) fun t ↦ [t] :=
  T.compute [base] (fun _ ↦ ⟨rfl, rfl, rfl, rfl⟩) (by simpa using hb)

theorem operate (op : BinaryOp) {left right : Temp} (hl : left ∈ known) (hr : right ∈ known) :
    P known (operate op left right) fun t ↦ [t] :=
  T.compute [left, right] (fun _ ↦ ⟨rfl, rfl, rfl, rfl⟩) (by simp [hl, hr])

theorem forM {γ : Type} {f : γ → Lower Unit} (cs : List γ)
    (hf : ∀ c ∈ cs, P known (f c) fun _ ↦ []) : P known (cs.forM f) fun _ ↦ [] := by
  induction cs with
  | nil => exact T.pure () (by simp)
  | cons c cs ih => exact T.bind (hf c (by simp)) fun _ ↦ ih fun d hd ↦ hf d (by simp [hd])

theorem checkedAddress {array index : Temp} (ha : array ∈ known) (hi : index ∈ known) :
    P known (checkedAddress array index) fun t ↦ [t] := by
  refine T.bind (T.append [array, index] ⟨rfl, rfl, rfl, rfl⟩ (by simp [ha, hi])) fun _ ↦ ?_
  refine T.bind (T.constant _) fun word ↦ T.bind (T.operate _ ?_ ?_) fun offset ↦ T.operate _ ?_ ?_
  all_goals simp [ha, hi]

theorem compareStrings {op : BinaryOp} {left right : Temp} (hl : left ∈ known)
    (hr : right ∈ known) :
    P known (compareStrings op left right span) fun t ↦ [t] := by
  refine T.bind (T.pass hl) fun _ ↦ T.bind (T.pass hr) fun _ ↦ T.bind (T.callRoutine _) fun r ↦
    T.bind (T.demand (by simp +contextual)) fun equal ↦ ?_
  split
  · exact T.compute [equal] (fun _ ↦ ⟨rfl, rfl, rfl, rfl⟩) (by simp)
  · exact T.pure equal (by simp)

theorem applyOp {op : BinaryOp} {leftType rightType : DataType} {left right : Temp}
    (hl : left ∈ known) (hr : right ∈ known) :
    P known (applyOp op leftType rightType left right span) fun t ↦ [t] := by
  unfold Lowering.applyOp
  split
  · exact T.bind (T.guardDivisor hr) fun _ ↦ T.operate _ hl hr
  · exact T.bind (T.guardDivisor hr) fun _ ↦ T.operate _ hl hr
  · split
    · exact T.compareStrings hl hr
    · exact T.operate _ hl hr
  · split
    · exact T.compareStrings hl hr
    · exact T.operate _ hl hr
  · exact T.operate _ hl hr

theorem callMethod {method : MethodSymbol} {receiver : Option Temp} {args : List Temp}
    (hr : ∀ t ∈ receiver, t ∈ known) (ha : ∀ t ∈ args, t ∈ known) :
    P known (callMethod method receiver args) Option.toList := by
  have hpass : P known ((receiver.toList ++ args).forM Lowering.pass) fun _ ↦ [] := by
    refine T.forM _ fun t ht ↦ T.pass ?_
    rcases List.mem_append.mp ht with ht | ht
    · exact hr t (by simpa using ht)
    · exact ha t ht
  refine T.bind hpass fun _ ↦ ?_
  cases receiver with
  | none => exact T.call _ [] (fun _ ↦ ⟨rfl, rfl, rfl, rfl⟩) (by simp)
  | some receiver =>
    refine T.bind (T.load 0 (hr receiver rfl)) fun vtable ↦ T.bind (T.load _ ?_) fun callee ↦ ?_
    · simp
    · exact T.call _ [callee] (fun _ ↦ ⟨rfl, rfl, rfl, rfl⟩) (by simp)

end Tracking

end ThreeAddress.Lowering

namespace ThreeAddress.Checked

open Code Lowering

variable {P : {α : Type} → List Temp → Lower α → (α → List Temp) → Prop} (T : Tracking P)
variable {env : Env}
include T

mutual

/-- The property holds of all expressions, where the receiver is known. -/
theorem Expr.tracks {known : List Temp} (hk : ∀ t ∈ env.receiver, t ∈ known) : (e : Expr) →
    P known (e.lower env) fun t ↦ [t]
  | .mk (.literal l) _ _ _ => T.literal l
  | .mk .null _ _ _ => T.constant 0
  | .mk .this _ _ _ => T.findReceiver hk
  | .mk .readInteger _ _ _ => T.bind (T.callRoutine _) fun _ ↦ T.demand (by simp +contextual)
  | .mk .readLine _ _ _ => T.bind (T.callRoutine _) fun _ ↦ T.demand (by simp +contextual)
  | .mk (.ident owner symbol) _ .memberVar span => by
    rw [Expr.lower]
    refine T.bind (Expr.tracksOwner hk owner) fun object ↦ ?_
    rw [Env.findVar_eq]
    exact T.bind T.find fun _ ↦ T.load _ (by simp)
  | .mk (.ident _ symbol) _ .localVar span => T.findTemp symbol span
  | .mk (.ident _ symbol) _ .paramVar span => T.findTemp symbol span
  | .mk (.ident _ symbol) _ .notLValue span => T.findTemp symbol span
  | .mk (.ident _ _) _ .arrayElement _ => T.reject _ _
  | .mk (.indexed array index) _ _ _ =>
    T.bind (array.tracks hk) fun _ ↦ T.bind (index.tracks fun t ht ↦ by simp [hk t ht]) fun _ ↦
      T.bind (T.checkedAddress (by simp) (by simp)) fun _ ↦ T.load _ (by simp)
  | .mk (.call c) _ _ _ => T.bind (c.tracks hk) fun _ ↦ T.demand (by simp +contextual)
  | .mk (.arrayLength array) _ _ _ => T.bind (array.tracks hk) fun _ ↦ T.load _ (by simp)
  | .mk (.binary op left right) _ _ _ =>
    T.bind (left.tracks hk) fun _ ↦ T.bind (right.tracks fun t ht ↦ by simp [hk t ht]) fun _ ↦
      T.applyOp (by simp) (by simp)
  | .mk (.unary _ operand) _ _ _ => T.bind (operand.tracks hk) fun t ↦
    T.compute [t] (fun _ ↦ ⟨rfl, rfl, rfl, rfl⟩) (by simp)
  | .mk (.newClass c) _ _ _ => by
    rw [Expr.lower, Env.findClass_eq]
    exact T.bind T.find fun _ ↦ T.bind (T.call _ [] (fun _ ↦ ⟨rfl, rfl, rfl, rfl⟩) (by simp))
      fun _ ↦ T.demand (by simp +contextual)
  | .mk (.newArray _ length) _ _ _ => T.bind (length.tracks hk) fun n ↦
    T.compute [n] (fun _ ↦ ⟨rfl, rfl, rfl, rfl⟩) (by simp)
  | .mk (.instanceOf object c) _ _ _ => by
    rw [Expr.lower, Env.findClass_eq]
    exact T.bind (object.tracks hk) fun t ↦ T.bind T.find fun _ ↦
      T.compute [t] (fun _ ↦ ⟨rfl, rfl, rfl, rfl⟩) (by simp)
  | .mk (.cast object c) _ _ _ => by
    rw [Expr.lower, Env.findClass_eq]
    refine T.bind (object.tracks hk) fun t ↦ T.bind T.find fun _ ↦ ?_
    split
    · exact T.bind (T.append [t] ⟨rfl, rfl, rfl, rfl⟩ (by simp)) fun _ ↦ T.pure t (by simp)
    · exact T.pure t (by simp)
  | .mk (.shallowCopy source) _ _ _ => by
    rw [Expr.lower]
    split
    · exact T.bind (source.tracks hk) fun _ ↦ T.cloneObject _ _ (by simp)
    · exact T.reject _ _
  | .mk (.newSameArray element count) _ _ _ =>
    T.bind (element.tracks hk) fun _ ↦ T.bind (count.tracks fun t ht ↦ by simp [hk t ht]) fun _ ↦
      T.fillArray _ _ (by simp) (by simp)
  | .mk (.defaultIndex array index fallback) _ _ _ =>
    T.bind (array.tracks hk) fun _ ↦ T.bind (index.tracks fun t ht ↦ by simp [hk t ht]) fun _ ↦
      T.bind (fallback.tracks fun t ht ↦ by simp [hk t ht]) fun _ ↦
      T.readOr (by simp) (by simp) (by simp)
  | .mk (.varBinding symbol) _ _ _ => T.declare symbol

theorem Expr.tracksOwner {known : List Temp} {span : Span} (hk : ∀ t ∈ env.receiver, t ∈ known) :
    (owner : Option Expr) → P known (Expr.lowerOwner env span owner) fun t ↦ [t]
  | some owner => owner.tracks hk
  | none => T.findReceiver hk

theorem Call.tracks {known : List Temp} {span : Span} (hk : ∀ t ∈ env.receiver, t ∈ known) :
    (c : Call) → P known (c.lower env span) Option.toList
  | .mk receiver method args => by
    rw [Call.lower, Env.findMethod_eq]
    exact T.bind T.find fun _ ↦ T.bind (Expr.tracksOption hk receiver) fun _ ↦
      T.bind (Expr.tracksAll (fun t ht ↦ by simp [hk t ht]) args) fun _ ↦
      T.callMethod (by simp +contextual) (by simp +contextual)

theorem Expr.tracksOption {known : List Temp} (hk : ∀ t ∈ env.receiver, t ∈ known) :
    (e : Option Expr) → P known (Expr.lowerOption env e) Option.toList
  | some e => T.bind (e.tracks hk) fun t ↦ T.pure (some t) (by simp)
  | none => T.pure none (by simp)

theorem Expr.tracksAll {known : List Temp} (hk : ∀ t ∈ env.receiver, t ∈ known) :
    (es : List Expr) → P known (Expr.lowerAll env es) fun ts ↦ ts
  | [] => T.pure [] (by simp)
  | e :: es => T.bind (e.tracks hk) fun t ↦
    T.bind (Expr.tracksAll (fun t ht ↦ by simp [hk t ht]) es) fun ts ↦
    T.pure (t :: ts) (by simp +contextual)

end

variable {known : List Temp}

theorem Expr.tracksEffects (hk : ∀ t ∈ env.receiver, t ∈ known) (e : Expr) :
    P known (e.lowerEffects env) fun _ ↦ [] := by
  unfold Expr.lowerEffects
  split
  · exact T.bind (Call.tracks T hk _) fun _ ↦ T.pure () (by simp)
  · exact T.bind (e.tracks T hk) fun _ ↦ T.pure () (by simp)

theorem Expr.tracksTarget {t : Temp} (hk : ∀ t ∈ env.receiver, t ∈ known) (ht : t ∈ known)
    (hcopy : ∀ {known : List Temp} {place t : Temp}, place ∈ known → t ∈ known →
      P known (append (.copy place t)) fun _ ↦ []) (target : Expr) :
    P known (target.lowerTarget env t) fun _ ↦ [] := by
  unfold Expr.lowerTarget
  split
  · exact T.bind (Expr.tracks T hk _) fun a ↦
      T.bind (Expr.tracks T (fun t ht ↦ by simp [hk t ht]) _) fun i ↦
      T.bind (T.checkedAddress (by simp) (by simp)) fun address ↦
      T.append [t, address] ⟨rfl, rfl, rfl, rfl⟩ (by simp [ht])
  · refine T.bind (Expr.tracksOwner T hk _) fun object ↦ ?_
    rw [Env.findVar_eq]
    exact T.bind T.find fun _ ↦ T.append [t, object] ⟨rfl, rfl, rfl, rfl⟩ (by simp [ht])
  · exact T.bind (T.findTemp _ _) fun place ↦ hcopy (by simp) (by simp [ht])
  · exact T.bind (T.findTemp _ _) fun place ↦ hcopy (by simp) (by simp [ht])
  · exact T.bind (T.declare _) fun place ↦ hcopy (by simp) (by simp [ht])
  · exact T.reject _ _

theorem Expr.tracksPrint (hk : ∀ t ∈ env.receiver, t ∈ known) (e : Expr) :
    P known (e.lowerPrint env) fun _ ↦ [] := by
  unfold Expr.lowerPrint
  refine T.bind (e.tracks T hk) fun t ↦ ?_
  split
  · exact T.reject _ _
  · exact T.bind (T.pass (by simp)) fun _ ↦ T.bind (T.callRoutine _) fun _ ↦ T.pure () (by simp)

end ThreeAddress.Checked
