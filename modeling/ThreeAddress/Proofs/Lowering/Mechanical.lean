import ThreeAddress.Proofs.Lowering.Emission

namespace ThreeAddress.Code

def Instr.offset? : Instr → Option Int32
  | .load _ _ offset | .store _ _ offset => some offset
  | _ => none

end ThreeAddress.Code

namespace ThreeAddress.Lowering

open Checked Code

variable {α β : Type} {x : Lower α} {span : Span} {env : Env}

/-- An action that is put together from steps of the generator. It looks nothing up and declares
nothing, and its offsets can all be shown. -/
inductive Mechanical : {α : Type} → Lower α → Prop
  | pure {α : Type} (a : α) : Mechanical (Pure.pure a : Lower α)
  | bind {α β : Type} {x : Lower α} {f : α → Lower β} (hx : Mechanical x)
      (hf : ∀ a, Mechanical (f a)) : Mechanical (x >>= f)
  | freshTemp : Mechanical freshTemp
  | freshLabel (stem : String) : Mechanical (freshLabel stem)
  | append {i : Instr} (h : i.offset? ≠ some .minValue) : Mechanical (append i)
  | pass (t : Temp) : Mechanical (pass t)
  | callRoutine (r : Routine) : Mechanical (callRoutine r)
  | place (l : Label) : Mechanical (place l)

namespace Mechanical

theorem compute {instr : Temp → Instr} (h : ∀ t, (instr t).offset? ≠ some .minValue) :
    Mechanical (compute instr) :=
  freshTemp.bind fun t ↦ (append (h t)).bind fun _ ↦ pure t

theorem appendPlain {i : Instr} (h : i.offset? = none) : Mechanical (Lowering.append i) :=
  append (by simp [h])

theorem computePlain {instr : Temp → Instr} (h : ∀ t, (instr t).offset? = none) :
    Mechanical (Lowering.compute instr) := compute fun t ↦ by simp [h t]

theorem constant (n : Int32) : Mechanical (constant n) := computePlain fun _ ↦ rfl

theorem operate (op : BinaryOp) (left right : Temp) : Mechanical (operate op left right) :=
  computePlain fun _ ↦ rfl

theorem load (base : Temp) {offset : Int32} (h : offset ≠ .minValue) :
    Mechanical (load base offset) := compute fun _ ho ↦ h (Option.some.inj ho)

theorem loadLength (array : Temp) : Mechanical (loadLength array) := load array (by decide)

theorem loadFirst (base : Temp) : Mechanical (Lowering.load base 0) := load base (by decide)

theorem store (src base : Temp) {offset : Int32} (h : offset ≠ .minValue) :
    Mechanical (Lowering.append (.store src base offset)) :=
  append fun ho ↦ h (Option.some.inj ho)

theorem storeFirst (src base : Temp) : Mechanical (Lowering.append (.store src base 0)) :=
  store src base (by decide)

theorem copyField (object clone : Temp) {offset : Int32} (h : offset ≠ .minValue) :
    Mechanical (copyField object clone offset) :=
  (load object h).bind fun field ↦ store field clone h

theorem literal (l : Literal) : Mechanical (literal l) := by
  cases l with
  | int n => exact constant n
  | bool b => exact constant _
  | string text => exact computePlain fun _ ↦ rfl

theorem addressOf (array index : Temp) : Mechanical (addressOf array index) :=
  (constant _).bind fun word ↦ (operate _ index word).bind fun offset ↦ operate _ array offset

theorem checkedAddress (array index : Temp) : Mechanical (checkedAddress array index) :=
  (appendPlain rfl).bind fun _ ↦ addressOf array index

theorem guardDivisor (divisor : Temp) : Mechanical (guardDivisor divisor) :=
  (computePlain fun _ ↦ rfl).bind fun message ↦ (freshLabel _).bind fun nonzero ↦
    (constant 0).bind fun zero ↦ (operate _ divisor zero).bind fun _ ↦
    (appendPlain rfl).bind fun _ ↦ (pass message).bind fun _ ↦ (callRoutine _).bind fun _ ↦
    (callRoutine _).bind fun _ ↦ place nonzero

theorem readOr (array index fallback : Temp) : Mechanical (readOr array index fallback) := by
  refine (loadLength array).bind fun length ↦ freshTemp.bind fun result ↦
    (freshLabel _).bind fun useDefault ↦ (freshLabel _).bind fun inBounds ↦
    (freshLabel _).bind fun done ↦ ?_
  refine (operate _ index length).bind fun _ ↦ (appendPlain rfl).bind fun _ ↦
    (constant _).bind fun zero ↦ (operate _ index zero).bind fun _ ↦
    (appendPlain rfl).bind fun _ ↦ ?_
  refine (place useDefault).bind fun _ ↦ (appendPlain rfl).bind fun _ ↦
    (appendPlain rfl).bind fun _ ↦ (place inBounds).bind fun _ ↦ ?_
  exact (addressOf array index).bind fun address ↦ (loadFirst address).bind fun _ ↦
    (appendPlain rfl).bind fun _ ↦ (place done).bind fun _ ↦ pure result

theorem closeLoop (again leave : Label) : Mechanical (closeLoop again leave) :=
  (appendPlain rfl).bind fun _ ↦ place leave

theorem openFill (count : Temp) : Mechanical (openFill count) := by
  refine (computePlain fun _ ↦ rfl).bind fun array ↦ (freshLabel _).bind fun fill ↦
    (freshLabel _).bind fun filled ↦ (constant _).bind fun word ↦ (constant _).bind fun one ↦
    (constant _).bind fun index ↦ freshTemp.bind fun cursor ↦ (appendPlain rfl).bind fun _ ↦ ?_
  exact (place fill).bind fun _ ↦ (operate _ index count).bind fun _ ↦
    (appendPlain rfl).bind fun _ ↦ pure _

theorem storeElement (loop : FillLoop) (stored : Temp) : Mechanical (loop.store stored) :=
  (storeFirst stored loop.cursor).bind fun _ ↦ (operate _ loop.cursor loop.word).bind fun _ ↦
    (appendPlain rfl).bind fun _ ↦ (operate _ loop.index loop.one).bind fun _ ↦
    (appendPlain rfl).bind fun _ ↦ closeLoop loop.fill loop.filled

theorem openEach (element array : Temp) : Mechanical (openEach element array) := by
  refine (freshLabel _).bind fun again ↦ (freshLabel _).bind fun leave ↦
    (constant _).bind fun word ↦ (constant _).bind fun one ↦ freshTemp.bind fun cursor ↦
    (appendPlain rfl).bind fun _ ↦ (loadLength array).bind fun length ↦
    (constant _).bind fun index ↦ ?_
  refine (place again).bind fun _ ↦ (operate _ index length).bind fun more ↦
    (operate _ index one).bind fun next ↦ (appendPlain rfl).bind fun _ ↦
    (appendPlain rfl).bind fun _ ↦ ?_
  exact (loadFirst cursor).bind fun _ ↦ (appendPlain rfl).bind fun _ ↦ pure _

theorem advance (loop : ArrayLoop) : Mechanical loop.advance :=
  (operate _ loop.cursor loop.word).bind fun next ↦ (appendPlain rfl).bind fun _ ↦ pure next

end Mechanical

def Bindless {α : Type} (x : Lower α) : Prop := ∀ ⦃s a s'⦄, x s = .ok a s' → s'.bound = s.bound

namespace Bindless

theorem pure (a : α) : Bindless (pure a : Lower α) := by
  intro s b s' h
  rw [(pure_ok_iff.mp h).2]

theorem bind {x : Lower α} {f : α → Lower β} (hx : Bindless x) (hf : ∀ a, Bindless (f a)) :
    Bindless (x >>= f) := by
  intro s b s' h
  obtain ⟨a, s₁, ha, hb⟩ := bind_ok_iff.mp h
  exact (hf a hb).trans (hx ha)

theorem step (f : Generator → α × Generator) : Bindless (step f) := by
  intro s a s' h
  cases h
  rfl

theorem attempt (f : Generator → Except Fault (α × Generator)) : Bindless (attempt f) := by
  intro s a s' h
  obtain ⟨g, -, rfl⟩ := attempt_ok h
  rfl

theorem of_mechanical (h : Mechanical x) : Bindless x := by
  induction h with
  | pure a => exact pure a
  | bind _ _ ihx ihf => exact ihx.bind ihf
  | freshTemp => exact step _
  | freshLabel _ => exact step _
  | append _ => exact step _
  | pass _ => exact step _
  | callRoutine _ => exact attempt _
  | place _ => exact attempt _

theorem lookUp (found : Option α) (kind : DefectKind) : Bindless (lookUp found kind span) := by
  intro s a s' h
  rw [(lookUp_ok h).2]

theorem forM {γ : Type} {f : γ → Lower Unit} (hf : ∀ c, Bindless (f c)) (cs : List γ) :
    Bindless (cs.forM f) := by
  induction cs with
  | nil => exact pure ()
  | cons c cs ih => exact (hf c).bind fun _ ↦ ih

theorem compute (instr : Temp → Instr) : Bindless (compute instr) := step _

theorem load (base : Temp) (offset : Int32) : Bindless (load base offset) := compute _

theorem checkedAddress (array index : Temp) : Bindless (checkedAddress array index) :=
  of_mechanical (.checkedAddress array index)

theorem guardDivisor (divisor : Temp) : Bindless (guardDivisor divisor) :=
  of_mechanical (.guardDivisor divisor)

theorem readOr (array index fallback : Temp) : Bindless (readOr array index fallback) :=
  of_mechanical (.readOr array index fallback)

theorem demand (result : Option Temp) : Bindless (demand result span) :=
  demand_eq result ▸ lookUp result _

theorem compareStrings (op : BinaryOp) (left right : Temp) :
    Bindless (compareStrings op left right span) := by
  refine (step _).bind fun _ ↦ (step _).bind fun _ ↦ (attempt _).bind fun r ↦
    (demand r).bind fun equal ↦ ?_
  split
  · exact compute _
  · exact pure equal

theorem callMethod (method : MethodSymbol) (receiver : Option Temp) (args : List Temp) :
    Bindless (callMethod method receiver args) := by
  refine (forM (fun _ ↦ step _) _).bind fun _ ↦ ?_
  cases receiver with
  | none => exact step _
  | some receiver => exact (compute _).bind fun _ ↦ (compute _).bind fun _ ↦ step _

theorem cloneObject (object : Temp) (c : ClassId) : Bindless (cloneObject env object c span) := by
  have hcopy (clone : Temp) (offset : Int32) : Bindless (copyField object clone offset) :=
    (compute _).bind fun _ ↦ step _
  unfold Lowering.cloneObject
  rw [Env.findClass_eq]
  exact (lookUp _ _).bind fun symbol ↦ (compute _).bind fun _ ↦ (step _).bind fun _ ↦
    (attempt _).bind fun r ↦ (demand r).bind fun clone ↦ (forM (hcopy clone) _).bind fun _ ↦
    (compute _).bind fun _ ↦ (step _).bind fun _ ↦ pure clone

theorem cloneIfObject (element : Temp) (type : DataType) :
    Bindless (cloneIfObject env element type span) := by
  unfold Lowering.cloneIfObject
  split
  · exact cloneObject element _
  · exact pure element

theorem fillArray (element count : Temp) (type : DataType) :
    Bindless (fillArray env element count type span) :=
  (of_mechanical (.openFill count)).bind fun loop ↦ (cloneIfObject element type).bind fun stored ↦
    (of_mechanical (.storeElement loop stored)).bind fun _ ↦ pure loop.array

end Bindless

end ThreeAddress.Lowering
